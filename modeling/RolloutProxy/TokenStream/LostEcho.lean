/-
  File:      RolloutProxy/TokenStream/LostEcho.lean
  Subject:   REQUESTS THAT LOST THEIR ECHOES: what `build_prompt` makes of a request without any
             assistant message that extends what the agent itself said in the committed
             conversation.

  The guard of the opening branch compares the request with the committed messages, echoes
  included. It refuses such a request as long as the committed conversation has no echo yet; from
  the second turn on the first echo differs from the request, and the request is rendered as a new
  conversation (`lostEcho_refused_iff`).
-/
import RolloutProxy.TokenStream.Continuation
import RolloutProxy.Recorder.Record
import RolloutProxy.Lib.Run

namespace RolloutProxy

/-! ## 1. Reachable managers -/

/-- The calls on a manager; a call that raises keeps what its lookup did. -/
inductive ManagerCall where
  | build (sid : Option String) (messages : List Fields) (tools : Json) (effort : Option String)
  | cached (sid : Option String) (messages : List Fields) (effort : Option String)
  | commit (sid : String) (messages : List Fields) (promptIds completionIds : List Int)
      (logProbs : Option (List PyFloat)) (finishReason : Option String) (engineMeta : EngineMeta)
      (tools : Json) (effort : Option String)
  | drop (sid : String)

/-- What a call leaves of the manager. -/
def TokenStreamManager.call (c : ManagerConfig) (m : TokenStreamManager) :
    ManagerCall → TokenStreamManager
  | .build sid messages tools effort => (m.buildPrompt c sid messages tools effort).2
  | .cached sid messages effort =>
    match m.cachedTurn c sid messages effort with
    | .ok (_, m') => m'
    | .error _ => m
  | .commit sid messages promptIds completionIds logProbs finishReason engineMeta tools effort =>
    match m.commit c sid messages promptIds completionIds logProbs finishReason engineMeta tools
        effort with
    | .ok m' => m'
    | .error _ => m
  | .drop sid => m.drop sid

/-- A manager some calls lead to. -/
def ReachableManager (c : ManagerConfig) (m : TokenStreamManager) : Prop :=
  Steps (fun m k => some (TokenStreamManager.call c m k)) (fun _ _ _ => True) .empty m

/-! ## 2. The guard -/

theorem zip_all_lost {p c : List Fields} (hc : c.any isAssistant = false)
    (hlen : p.length < c.length) (hp : p.any isAssistant = true) :
    ((p.zip c).all fun pc => sameMessage pc.1 pc.2) = false := by
  induction p generalizing c with
  | nil => cases hp
  | cons x p ih =>
      cases c with
      | nil => simp at hlen
      | cons y c =>
          simp only [List.any_cons, Bool.or_eq_false_iff] at hc
          simp only [List.zip_cons_cons, List.all_cons, Bool.and_eq_false_iff]
          by_cases hx : isAssistant x = true
          · refine .inl ?_
            by_contra hs
            have hrole := sameMessage_isAssistant (by simpa using hs : sameMessage x y = true)
            rw [hx, hc.1] at hrole
            cases hrole
          · refine .inr (ih hc.2 (by simpa using hlen) ?_)
            simpa [hx] using hp

/-- **The guard sees a lost echo only where no echo was committed yet.** -/
theorem extendsConversation_lost_iff {committed n : List Fields} (hn : n.any isAssistant = false)
    (hext : extendsConversation (nonAssistant committed) n = true) :
    extendsConversation committed n = true ↔ committed.any isAssistant = false := by
  constructor
  · intro h
    cases ha : committed.any isAssistant with
    | false => rfl
    | true =>
        unfold extendsConversation at h
        rw [Bool.and_eq_true, decide_eq_true_eq] at h
        rw [zip_all_lost hn h.1 ha] at h
        exact absurd h.2 (by simp)
  · intro h
    have hself : nonAssistant committed = committed := by
      rw [nonAssistant, List.filter_eq_self]
      intro m hm
      simpa using List.any_eq_false.mp h m hm
    rw [hself] at hext
    exact hext

/-! ## 3. What such a request gets -/

section Lost

variable {c : ManagerConfig} {m : TokenStreamManager} {sid : String} {st : SessionState}
  {messages n : List Fields}

/-- The request is refused whatever was committed before: its tools are not accepted, or the
    tokenizer refuses the render of its own messages. -/
def RefusedAnyway (c : ManagerConfig) (n : List Fields) (tools : Json) (effort : Option String) :
    Prop :=
  (∃ e, validateTools tools = .error e) ∨ ∃ e, c.fullRender n tools effort = .error (.tokenStream e)

/-- What `build_prompt` answers a request without assistant messages. -/
theorem buildPrompt_opening (hst : m.sessions.get? sid = some st)
    (hm : normalizeMessages messages = .ok n) (hn : n.any isAssistant = false) {tools : Json}
    (ht : validateTools tools = .ok ()) (effort : Option String) :
    (m.buildPrompt c (some sid) messages tools effort).1 =
      if extendsConversation st.messages n then refuse (.echoMissing st.messages.length)
      else c.fullRender n tools effort := by
  have hfind : n.findIdx? isAssistant = none := by
    rw [List.findIdx?_eq_none_iff]
    exact fun x hx => by simpa using List.any_eq_false.mp hn x hx
  unfold TokenStreamManager.buildPrompt
  simp only [hm, ht, hst, ManagerConfig.promptFor, hfind]

/-- **A request that lost its echoes is refused** exactly where the committed conversation has no
    echo, or where the request is refused for itself. -/
theorem lostEcho_refused_iff (hst : m.sessions.get? sid = some st)
    (hm : normalizeMessages messages = .ok n) (hn : n.any isAssistant = false)
    (hext : extendsConversation (nonAssistant st.messages) n = true) (tools : Json)
    (effort : Option String) :
    (∃ e, (m.buildPrompt c (some sid) messages tools effort).1 = .error (.tokenStream e)) ↔
      st.messages.any isAssistant = false ∨ RefusedAnyway c n tools effort := by
  have hlost := extendsConversation_lost_iff hn hext
  cases ht : validateTools tools with
  | error e =>
      have : (m.buildPrompt c (some sid) messages tools effort).1 = .error (.tokenStream e) := by
        unfold TokenStreamManager.buildPrompt
        simp only [hm, ht]
        rfl
      exact ⟨fun _ => .inr (.inl ⟨e, ht⟩), fun _ => ⟨e, this⟩⟩
  | ok u =>
      rw [buildPrompt_opening hst hm hn ht]
      by_cases he : extendsConversation st.messages n = true
      · rw [if_pos he]
        exact ⟨fun _ => .inl (hlost.mp he), fun _ => ⟨_, rfl⟩⟩
      · rw [if_neg he]
        constructor
        · rintro ⟨e, hr⟩
          exact .inr (.inr ⟨e, hr⟩)
        · rintro (ha | ⟨e, hr⟩ | ⟨e, hr⟩)
          · exact absurd (hlost.mpr ha) he
          · rw [ht] at hr; cases hr
          · exact ⟨e, hr⟩

end Lost

/-! ## 4. The second turn -/

/-- A template that renders every message as the token 2. -/
def flatTokenizer : Tokenizer where
  applyChatTemplate ms _ _ := .ok (.arr (ms.map fun _ => .int 2))
  renderText _ := .ok ""
  encode _ := .ok (.arr [.int 1])
  decode _ := .ok ""

def flatConfig : ManagerConfig := .default flatTokenizer

def asks (text : String) : Fields := [("role", .str "user"), ("content", .str text)]
def answers (text : String) : Fields := [("role", .str "assistant"), ("content", .str text)]

/-- The commit of a turn with one sampled token. -/
def committing (messages : List Fields) (promptIds : List Int) : ManagerCall :=
  .commit "s-a" messages promptIds [3] (some [.finite 0]) (some "stop") .empty .null none

/-- One committed turn, and two. -/
def oneTurn : TokenStreamManager :=
  TokenStreamManager.empty.call flatConfig (committing [asks "q"] [2, 1])
def twoTurns : TokenStreamManager :=
  oneTurn.call flatConfig (committing [asks "q", answers "x", asks "r"] [2, 1, 3, 1, 2, 1])

/-- After one turn the request that lost its echo is refused. -/
theorem lostEcho_refused_oneTurn : ∃ st, oneTurn.sessions.get? "s-a" = some st ∧
    ((∃ e, (oneTurn.buildPrompt flatConfig (some "s-a") [asks "q", asks "r"] .null none).1 =
      .error (.tokenStream e)) ↔
    (st.messages.any isAssistant = false ∨
      RefusedAnyway flatConfig [asks "q", asks "r"] .null none)) :=
  ⟨_, rfl, lostEcho_refused_iff (show oneTurn.sessions.get? "s-a" = some _ from rfl)
    (show normalizeMessages [asks "q", asks "r"] = .ok [asks "q", asks "r"] from rfl) rfl rfl .null
    none⟩

/-- **After two turns it silently restarts the stream**: the request drops the echo and appends a
    message, and `build_prompt` renders it as a new conversation. -/
theorem lostEcho_twoTurns :
    ¬ ∀ (c : ManagerConfig) (m : TokenStreamManager) (sid : String) (st : SessionState)
      (messages n : List Fields) (tools : Json) (effort : Option String), ReachableManager c m →
      m.sessions.get? sid = some st → normalizeMessages messages = .ok n →
      n.any isAssistant = false → extendsConversation (nonAssistant st.messages) n = true →
      ∃ e, (m.buildPrompt c (some sid) messages tools effort).1 = .error (.tokenStream e) := by
  intro hall
  have hreach : ReachableManager flatConfig twoTurns :=
    .tail (committing [asks "q", answers "x", asks "r"] [2, 1, 3, 1, 2, 1])
      (.tail (committing [asks "q"] [2, 1]) (.start _) rfl trivial) rfl trivial
  obtain ⟨e, he⟩ := hall flatConfig twoTurns "s-a" _ [asks "q", asks "r", asks "s"]
    [asks "q", asks "r", asks "s"] .null none hreach rfl rfl rfl rfl
  have hok : (twoTurns.buildPrompt flatConfig (some "s-a") [asks "q", asks "r", asks "s"] .null
      none).1 = .ok [2, 2, 2, 1] := rfl
  rw [hok] at he
  cases he

end RolloutProxy
