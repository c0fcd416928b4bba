/-
  File:      RolloutProxy/TokenStream/Oracle.lean
  Subject:   INCREMENTAL PROMPTS ARE THE TEMPLATE'S OWN RENDER, over runs of `build_prompt` and
             `commit` on any number of sessions.

  * `step`: a request builds a prompt, which stands for a conversation; a commit appends what the
    engine sampled behind it. Eviction happens inside the commits.
  * `Spelled`: the invariant: a session's stream is the render of its conversation up to the
    generation prompt, and a completion of the last body.
  * **`buildPrompt_eq_render`**: every prompt that is built is the full render of the conversation
    it stands for, and the generation prompt.
-/
import RolloutProxy.TokenStream.Manager
import RolloutProxy.TokenStream.Homomorphic
import RolloutProxy.Lib.Run

namespace RolloutProxy

/-! ## 1. Runs -/

/-- A conversation with the tools and effort of its opening. -/
structure TemplateConversation where
  tools : Json
  effort : Option String
  shown : List Shown

/-- A prompt that has been built, and the conversation it stands for. -/
structure BuiltPrompt where
  messages : List Fields
  tools : Json
  effort : Option String
  prompt : List Int
  conversation : TemplateConversation

/-- A manager, the prompts that await their commit, and the conversation of every stream. -/
structure Streams where
  manager : TokenStreamManager
  built : Dict String BuiltPrompt
  conversations : Dict String TemplateConversation

inductive StreamEvent where
  | build (sid : String) (messages : List Fields) (tools : Json) (effort : Option String)
  | commit (sid : String) (body completion : List Int) (logProbs : Option (List PyFloat))
      (finishReason : Option String) (engineMeta : EngineMeta)

namespace Streams

def init : Streams := ⟨.empty, ∅, ∅⟩

variable (c : ManagerConfig)

/-- The conversation a request stands for: its own messages where it opens one, else those of the
    stream with the new messages behind them. -/
def standsFor (s : Streams) (sid : String) (normalized : List Fields) (tools : Json)
    (effort : Option String) : TemplateConversation :=
  if normalized.any isAssistant then
    match s.conversations.get? sid, s.manager.sessions.get? sid with
    | some conversation, some state =>
      match c.newShown state normalized with
      | .ok new => { conversation with shown := conversation.shown ++ new.map .message }
      | .error _ => conversation
    | _, _ => ⟨tools, effort, normalized.map .message⟩
  else ⟨tools, effort, normalized.map .message⟩

def step (s : Streams) : StreamEvent → Option Streams
  | .build sid messages tools effort =>
    match s.manager.buildPrompt c (some sid) messages tools effort, normalizeMessages messages with
    | (.ok prompt, m), .ok normalized =>
      let b : BuiltPrompt :=
        ⟨messages, tools, effort, prompt, s.standsFor c sid normalized tools effort⟩
      some { s with manager := m, built := s.built.set sid b }
    | (_, m), _ => some { s with manager := m }
  | .commit sid body completion logProbs finishReason engineMeta =>
    match s.built.get? sid with
    | none => none
    | some b =>
      match s.manager.commit c sid b.messages b.prompt completion logProbs finishReason engineMeta
          b.tools b.effort with
      | .error _ => none
      | .ok m => some
        { manager := m, built := s.built.erase sid
          conversations := s.conversations.set sid
            { b.conversation with shown := b.conversation.shown ++ [.assistant body] } }

variable {c}

/-- Every completion committed on `sid` is one of its body. -/
def Admitted (h : Homomorphic c) (sid : String) (s : Streams) (e : StreamEvent) (_ : Streams) :
    Prop :=
  match e with
  | .build .. => True
  | .commit k body completion _ _ _ => k = sid → ∀ b, s.built.get? sid = some b →
      SampledBody h b.prompt body completion

/-! ## 2. The conversation is the request's -/

/-- A shown message stands for a message of the request: by role and content, or, for an
    assistant message, by the body that was sampled there. -/
def Shows (m : Fields) : Shown → Prop
  | .message m' => isAssistant m = false ∧ m.get "role" = m'.get "role" ∧
      m.get "content" = m'.get "content"
  | .assistant _ => isAssistant m = true

theorem shows_messages : ∀ {ms : List Fields}, (∀ m ∈ ms, isAssistant m = false) →
    List.Forall₂ Shows ms (ms.map .message)
  | [], _ => .nil
  | m :: ms, h => .cons ⟨h m (by simp), rfl, rfl⟩ (shows_messages fun x hx => h x (by simp [hx]))

/-- A history that was not modified shows what the recorded one shows. -/
theorem shows_history : ∀ {i : Nat} {prev cur : List Fields} {l : List Shown}, Normal prev →
    prev.length ≤ cur.length → ManagerConfig.modifiedAt i prev cur = none →
    List.Forall₂ Shows prev l → List.Forall₂ Shows (cur.take prev.length) l
  | _, [], cur, l, _, _, _, h => by
      cases h
      exact .nil
  | _, p :: ps, [], _, _, hl, _, _ => by simp at hl
  | i, p :: ps, m :: cur, l, hn, hl, hm, h => by
      cases h with
      | cons hx hrest =>
        unfold ManagerConfig.modifiedAt at hm
        split at hm
        · next hsame =>
          have hp := hn p (by simp)
          obtain ⟨hrole, hcontent⟩ := sameMessage_fields hp.1 hp.2 hsame
          have hass : isAssistant m = isAssistant p := by
            unfold isAssistant hasRole
            rw [hrole]
          refine .cons ?_ (shows_history (fun x hx => hn x (by simp [hx])) (by simpa using hl) hm hrest)
          cases ‹Shown› with
          | message m' =>
              obtain ⟨ha, hr, hc⟩ := hx
              exact ⟨hass.trans ha, hrole.trans hr, hcontent.trans hc⟩
          | assistant b => exact hass.trans hx
        · cases hm

/-- **A continuation shows the history, the sampled body and its new messages.** -/
theorem shows_continuation {prev normalized new : List Fields} {echo : Fields} {l : List Shown}
    (body : List Int) (hn : Normal prev)
    (h : ManagerConfig.newMessages prev normalized = .ok (echo, new))
    (hl : List.Forall₂ Shows prev l) :
    List.Forall₂ Shows normalized (l ++ [.assistant body] ++ new.map .message) := by
  unfold ManagerConfig.newMessages at h
  simp only at h
  split at h
  · cases h
  · next hlen =>
    split at h
    · cases h
    · next hmod =>
      split at h
      · cases h
      · next e rest hdrop =>
        split at h
        · cases h
        · next hass =>
          split at h
          · next hgap =>
            cases h
            have hsplit := List.take_append_drop prev.length normalized
            rw [hdrop] at hsplit
            rw [← hsplit, List.append_assoc]
            have hnew : ∀ m ∈ new, isAssistant m = false := by
              intro m hm
              rw [List.filter_eq_nil_iff] at hgap
              have hg : ManagerConfig.gapRole m = true := by simpa using hgap m hm
              unfold ManagerConfig.gapRole at hg
              rw [List.any_eq_true] at hg
              obtain ⟨r, hr, hrole⟩ := hg
              cases ha : isAssistant m with
              | false => rfl
              | true =>
                  have := hasRole_unique ha hrole
                  subst this
                  simp at hr
            exact List.rel_append (shows_history hn (by omega) hmod hl)
              (.cons (show isAssistant echo = true by simpa using hass) (shows_messages hnew))
          · cases h

/-! ## 3. The invariant -/

/-- A stream is the prompt of its conversation and a completion of the last body. -/
def SpelledBy (h : Homomorphic c) (stream : List Int) (conversation : TemplateConversation) : Prop :=
  ∃ l body completion, conversation.shown = l ++ [.assistant body] ∧
    stream = h.render conversation.tools conversation.effort l ++ h.gen ++ completion ∧
    SampledBody h (h.render conversation.tools conversation.effort l ++ h.gen) body completion

/-- The stream's conversation shows the messages of the last request, where no hook rewrites
    them. -/
def ShowsState (c : ManagerConfig) (st : SessionState) (conversation : TemplateConversation) : Prop :=
  Normal st.messages ∧ (c.prepareDeltaMessages = none → ∀ l body,
    conversation.shown = l ++ [.assistant body] → List.Forall₂ Shows st.messages l)

/-- What a prompt is and stands for. -/
def IsRender (h : Homomorphic c) (normalized : List Fields) (prompt : List Int)
    (conversation : TemplateConversation) : Prop :=
  prompt = h.render conversation.tools conversation.effort conversation.shown ++ h.gen ∧
    (c.prepareDeltaMessages = none → List.Forall₂ Shows normalized conversation.shown)

structure Spelled (h : Homomorphic c) (sid : String) (s : Streams) : Prop where
  streams : ∀ st, s.manager.sessions.get? sid = some st →
    ∃ conversation, s.conversations.get? sid = some conversation ∧
      SpelledBy h st.stream conversation ∧ ShowsState c st conversation
  built : ∀ b, s.built.get? sid = some b → ∃ normalized,
    normalizeMessages b.messages = .ok normalized ∧ IsRender h normalized b.prompt b.conversation

/-- **One build**: under the invariant the prompt is the render of what the request stands for. -/
theorem Spelled.buildPrompt {h : Homomorphic c} {sid : String} {s : Streams} (hi : Spelled h sid s)
    {messages normalized : List Fields} {tools : Json} {effort : Option String} {prompt : List Int}
    {m : TokenStreamManager} (hn : normalizeMessages messages = .ok normalized)
    (hb : s.manager.buildPrompt c (some sid) messages tools effort = (.ok prompt, m)) :
    IsRender h normalized prompt (s.standsFor c sid normalized tools effort) := by
  have hopen : ∀ {ids}, c.fullRender normalized tools effort = .ok ids →
      ids = h.render tools effort (normalized.map .message) ++ h.gen := by
    intro ids hr
    obtain ⟨rendered, hrender, hr⟩ := bind_ok hr
    obtain ⟨gen, hg, hr⟩ := bind_ok hr
    cases hr
    rw [h.generation] at hg
    cases hg
    rw [h.opens _ _ _ _ _ hrender]
    unfold Homomorphic.render
    rw [h.flatMap_messages]
  unfold TokenStreamManager.buildPrompt at hb
  rw [hn] at hb
  simp only at hb
  split at hb
  · cases hb
  · cases hb
  · next norm hok hv =>
    cases hok
    simp only [Prod.mk.injEq] at hb
    obtain ⟨hp, -⟩ := hb
    unfold ManagerConfig.promptFor at hp
    split at hp
    · next hnone =>
      -- without an echo the request is rendered whole
      have hany : normalized.any isAssistant = false := by
        rw [List.findIdx?_eq_none_iff] at hnone
        rw [List.any_eq_false]
        intro x hx
        simpa using hnone x hx
      have hshow : List.Forall₂ Shows normalized (normalized.map .message) :=
        shows_messages fun x hx => by simpa using List.any_eq_false.mp hany x hx
      unfold standsFor
      rw [hany, if_neg Bool.false_ne_true]
      split at hp
      · exact ⟨hopen hp, fun _ => hshow⟩
      · split at hp
        · cases hp
        · exact ⟨hopen hp, fun _ => hshow⟩
    · next i hsome =>
      -- with one it continues the stream: the delta spells the new messages
      have hany : normalized.any isAssistant = true := by
        cases ha : normalized.any isAssistant with
        | true => rfl
        | false =>
            rw [List.any_eq_false] at ha
            have : normalized.findIdx? isAssistant = none := by
              rw [List.findIdx?_eq_none_iff]
              intro x hx
              simpa using ha x hx
            rw [this] at hsome
            cases hsome
      split at hp
      · split at hp <;> cases hp
      · next st hst =>
        obtain ⟨conversation, hc, ⟨l, body, completion, hshown, hstream, hs⟩, hnormal, hshows⟩ :=
          hi.streams st hst
        split at hp
        · cases hp
        · obtain ⟨_, _, hp⟩ := bind_ok hp
          obtain ⟨delta, hd, hp⟩ := bind_ok hp
          cases hp
          obtain ⟨new, hnew, hspell⟩ := deltaIds_spells h hs hstream hd
          unfold standsFor
          rw [hany, if_pos rfl, hc, hst]
          simp only [hnew]
          refine ⟨?_, fun hhook => ?_⟩
          · rw [hspell, hshown, h.render_append, h.render_append, h.flatMap_messages]
            simp [Homomorphic.tokens]
          · obtain ⟨⟨echo, fresh⟩, hfresh, hprep⟩ := bind_ok hnew
            simp only [ManagerConfig.preparedMessages, hhook] at hprep
            cases hprep
            simp only [hshown]
            exact shows_continuation body hnormal hfresh (hshows hhook l body hshown)

/-! ## 4. The run -/

/-- **One step keeps the invariant.** -/
theorem Spelled.step {h : Homomorphic c} {sid : String} {s t : Streams} {e : StreamEvent}
    (hi : Spelled h sid s) (hs : s.step c e = some t) (hp : Admitted h sid s e t) :
    Spelled h sid t := by
  cases e with
  | build k messages tools effort =>
      simp only [Streams.step] at hs
      -- a build keeps every stream, and notes what its prompt stands for
      have hsame := fun k' => TokenStreamManager.buildPrompt_get? c s.manager (some k) messages tools
        effort k'
      split at hs
      · next prompt m normalized hb hn =>
        cases hs
        rw [hb] at hsame
        refine ⟨fun st hst => hi.streams st (by rw [← hsame]; exact hst), fun b hbb => ?_⟩
        simp only [Dict.get?_set] at hbb
        split at hbb
        · next hk =>
          subst hk
          cases hbb
          exact ⟨normalized, hn, hi.buildPrompt hn hb⟩
        · exact hi.built b hbb
      · next m _ _ =>
        cases hs
        refine ⟨fun st hst => hi.streams st ?_, hi.built⟩
        have he : (s.manager.buildPrompt c (some k) messages tools effort).2 = m := by
          rename_i hb _
          rw [hb]
        rw [← hsame, he]
        exact hst
  | commit k body completion logProbs finishReason engineMeta =>
      simp only [Streams.step] at hs
      split at hs
      · cases hs
      · next b hb =>
        split at hs
        · cases hs
        · next m hm =>
          cases hs
          unfold TokenStreamManager.commit at hm
          split at hm
          · cases hm
          · next normalized hn =>
            cases hm
            refine ⟨fun st hst => ?_, fun b' hb' => ?_⟩
            · -- the stream that is published spells the build it was committed for
              rcases TokenStreamManager.publish_get?_cases _ _ hst with ⟨rfl, rfl⟩ | ⟨hne, hst⟩
              · obtain ⟨norm, hn', hprompt, hshows⟩ := hi.built b hb
                rw [hn] at hn'
                cases hn'
                refine ⟨_, Dict.get?_set_self _ _ _,
                  ⟨b.conversation.shown, body, completion, rfl, ?_, ?_⟩,
                  normalizeMessages_normal hn, fun hhook l body' hl => ?_⟩
                · rw [← hprompt]
                  rfl
                · rw [← hprompt]
                  exact hp rfl b hb
                · obtain ⟨rfl, _⟩ := List.append_inj' hl rfl
                  exact hshows hhook
              · obtain ⟨conversation, hc, hsp⟩ := hi.streams st hst
                exact ⟨conversation, by rw [Dict.get?_set_ne _ _ hne]; exact hc, hsp⟩
            · rw [Dict.get?_erase] at hb'
              split at hb'
              · cases hb'
              · exact hi.built b' hb'

/-- **Incremental prompts equal the full template render.** In every run of builds and commits,
    interleaved with other sessions as it may be, in which each completion committed on the
    session is one of its body, every prompt the session's requests are given is the template's
    render of the conversation and the generation prompt; and, where the profile has no hook, the
    conversation is the request's, message by message. -/
theorem buildPrompt_eq_render (h : Homomorphic c) {sid : String} {s : Streams}
    (hrun : Steps (step c) (Admitted h sid) init s) {messages normalized : List Fields}
    {tools : Json} {effort : Option String} {prompt : List Int} {m : TokenStreamManager}
    (hn : normalizeMessages messages = .ok normalized)
    (hb : s.manager.buildPrompt c (some sid) messages tools effort = (.ok prompt, m)) :
    let conversation := s.standsFor c sid normalized tools effort
    prompt = h.render conversation.tools conversation.effort conversation.shown ++ h.gen ∧
      (c.prepareDeltaMessages = none → List.Forall₂ Shows normalized conversation.shown) := by
  have hi : Spelled h sid s := by
    refine hrun.inv ⟨fun st hst => ?_, fun b hb => ?_⟩ fun t e u ht hs hp => ht.step hs hp
    · cases hst
    · cases hb
  exact hi.buildPrompt hn hb

/-! ## 5. Two turns of a marker template -/

/-- A template whose blocks are `[2]`, behind the prefix `[7]`; `G`, `E` and `R` are the tokens 1,
    5 and 9. -/
def markerTokenizer : Tokenizer where
  applyChatTemplate ms _ _ := .ok (.arr ((7 :: ms.flatMap fun _ => [2]).map .int))
  renderText _ := .ok ""
  encode text := .ok (.arr ((if text = "G" then [1] else if text = "E" then [5]
    else if text = "R" then [9] else []).map .int))
  decode _ := .ok ""

/-- The marker profile, with its complete endings. -/
def markerConfig (endings : List String) : ManagerConfig :=
  { ManagerConfig.default markerTokenizer with
    generationPrompt := "G"
    assistantTurnEnd := "E"
    assistantTurnEndings := endings }

theorem markerRender (what : String) (ms : List Fields) (tools : Json) (effort : Option String) :
    markerTokenizer.render what ms tools effort = .ok (7 :: ms.flatMap fun _ => [2]) := by
  simp only [Tokenizer.render, markerTokenizer, asTokenIds_ints]
  rfl

def markerHomomorphic (endings : List String) : Homomorphic (markerConfig endings) where
  prefixIds := [7]
  openPrefix _ _ := [7]
  block _ := [2]
  gen := [1]
  ending := [5]
  generation := rfl
  turnEnd := rfl
  renders what ms ids h := by
    rw [show (markerConfig endings).tokenizer = markerTokenizer from rfl, markerRender] at h
    cases h
    rfl
  probes := rfl
  opens what ms tools effort ids h := by
    rw [show (markerConfig endings).tokenizer = markerTokenizer from rfl, markerRender] at h
    cases h
    rfl

def userSays (text : String) : Fields := [("role", .str "user"), ("content", .str text)]
def assistantSays (text : String) : Fields := [("role", .str "assistant"), ("content", .str text)]

/-- The next request of the conversation. -/
def nextRequest : List Fields := [userSays "hi", assistantSays "x", userSays "more"]

/-- The streams behind an opening and its sampled completion. -/
def openedWith (endings : List String) (body completion : List Int) : Option Streams :=
  exec (step (markerConfig endings)) (fun s e _ => match e with
      | .build .. => true
      | .commit _ b k _ _ _ => b = body ∧ k = completion ∧
          (s.built.get? "s-a").any fun b => b.prompt = [7, 2, 1]) init
    [.build "s-a" [userSays "hi"] .null none,
      .commit "s-a" body completion (some [.finite 0]) (some "stop") .empty]

/-- The prompt of the next request, and the render of what it stands for. -/
def nextPrompt (endings : List String) (body completion : List Int) :
    Option (List Int × List Int) := do
  let s ← openedWith endings body completion
  let conversation := s.standsFor (markerConfig endings) "s-a" nextRequest .null none
  match (s.manager.buildPrompt (markerConfig endings) (some "s-a") nextRequest .null none).1 with
  | .ok ids => some (ids, (markerHomomorphic endings).render conversation.tools conversation.effort
      conversation.shown ++ (markerHomomorphic endings).gen)
  | .error _ => none

/-- A run that opened a conversation meets any condition its commit meets. -/
theorem openedWith_steps {endings : List String} {body completion : List Int} {s : Streams}
    (P : Streams → StreamEvent → Streams → Prop) (h : openedWith endings body completion = some s)
    (hb : ∀ s k messages tools effort t, P s (.build k messages tools effort) t)
    (hc : ∀ s k lps reason m t, (∀ b, s.built.get? "s-a" = some b → b.prompt = [7, 2, 1]) →
      P s (.commit k body completion lps reason m) t) :
    Steps (step (markerConfig endings)) P init s := by
  refine (exec_steps h).mono fun t e u hp => ?_
  cases e with
  | build => exact hb ..
  | commit k b' k' lps reason m =>
      simp only [Bool.decide_and, Bool.and_eq_true, decide_eq_true_eq] at hp
      obtain ⟨rfl, rfl, hp⟩ := hp
      refine hc _ _ _ _ _ _ fun b hb => ?_
      rw [hb] at hp
      simpa using hp

/-- The state behind a prompt that was computed. -/
theorem nextPrompt_some {endings : List String} {body completion prompt expected : List Int}
    (h : nextPrompt endings body completion = some (prompt, expected)) :
    ∃ s m, openedWith endings body completion = some s ∧
      s.manager.buildPrompt (markerConfig endings) (some "s-a") nextRequest .null none =
        (.ok prompt, m) ∧
      expected = (markerHomomorphic endings).render
        (s.standsFor (markerConfig endings) "s-a" nextRequest .null none).tools
        (s.standsFor (markerConfig endings) "s-a" nextRequest .null none).effort
        (s.standsFor (markerConfig endings) "s-a" nextRequest .null none).shown ++
          (markerHomomorphic endings).gen := by
  unfold nextPrompt at h
  cases hs : openedWith endings body completion with
  | none => rw [hs] at h; cases h
  | some s =>
    rw [hs] at h
    cases hb : s.manager.buildPrompt (markerConfig endings) (some "s-a") nextRequest .null none with
    | mk r m =>
      simp only [hb, Option.bind_eq_bind, Option.bind_some] at h
      cases r with
      | error e => cases h
      | ok ids =>
        cases h
        exact ⟨s, m, rfl, hb, rfl⟩

/-- After a natural stop the sampled end token is completed, not repeated. -/
theorem buildPrompt_eq_render_stop : ∃ (s : Streams) (prompt : List Int),
    prompt = [7, 2, 1, 3, 5, 2, 1] ∧
    let conversation := s.standsFor (markerConfig []) "s-a" nextRequest .null none
    prompt = (markerHomomorphic []).render conversation.tools conversation.effort
        conversation.shown ++ (markerHomomorphic []).gen ∧
      ((markerConfig []).prepareDeltaMessages = none →
        List.Forall₂ Shows nextRequest conversation.shown) := by
  have hn : nextPrompt [] [3] [3, 5] = some ([7, 2, 1, 3, 5, 2, 1], [7, 2, 1, 3, 5, 2, 1]) := by
    decide +kernel
  obtain ⟨s, m, hs, hb, _⟩ := nextPrompt_some hn
  refine ⟨s, _, rfl, buildPrompt_eq_render (markerHomomorphic [])
    (openedWith_steps _ hs (fun _ _ _ _ _ _ => trivial) ?_)
    (show normalizeMessages nextRequest = .ok nextRequest from rfl) hb⟩
  intro t k lps reason m' u hprompt _ b hb'
  rw [hprompt b hb']
  refine ⟨by simp [NoCompleteEnding, markerConfig], .inl ⟨1, rfl, ⟨by decide, ?_, ?_⟩, ?_⟩⟩
  · exact ⟨[7, 2, 1, 3], rfl⟩
  · intro n hle _
    exact hle
  · simp [NoHeader, markerConfig, ManagerConfig.default]

/-- A completion that is its body and the longest part of the ending it ends with, or, where the
    ending is empty, its body and perhaps a continuation header. -/
def EndsItsBody (h : Homomorphic c) (prompt body completion : List Int) : Prop :=
  (∃ n, completion = body ++ h.ending.take n ∧ LongestEnd (prompt ++ completion) h.ending n) ∨
    (h.ending = [] ∧ (completion = body ∨ ∃ header ∈ c.continuationHeaders, ∃ ids,
      c.tokenizer.tokenize "continuation header" header = .ok ids ∧ completion = body ++ ids))

/-- Behind a complete assistant ending of the profile no turn end is written, so the next prompt
    is not the template's render with the ending. -/
theorem complete_ending_is_not_closed :
    ¬∀ (s : Streams) (prompt : List Int) (m : TokenStreamManager),
      Steps (step (markerConfig ["R"])) (fun s e _ => match e with
          | .build .. => True
          | .commit k body completion _ _ _ => k = "s-a" → ∀ b, s.built.get? "s-a" = some b →
              EndsItsBody (markerHomomorphic ["R"]) b.prompt body completion) init s →
      s.manager.buildPrompt (markerConfig ["R"]) (some "s-a") nextRequest .null none =
        (.ok prompt, m) →
      let conversation := s.standsFor (markerConfig ["R"]) "s-a" nextRequest .null none
      prompt = (markerHomomorphic ["R"]).render conversation.tools conversation.effort
        conversation.shown ++ (markerHomomorphic ["R"]).gen := by
  intro hall
  have hn : nextPrompt ["R"] [3, 9] [3, 9] =
      some ([7, 2, 1, 3, 9, 2, 1], [7, 2, 1, 3, 9, 5, 2, 1]) := by decide +kernel
  obtain ⟨s, m, hs, hb, he⟩ := nextPrompt_some hn
  have hrun := openedWith_steps (fun s e _ => match e with
      | .build .. => True
      | .commit k body completion _ _ _ => k = "s-a" → ∀ b, s.built.get? "s-a" = some b →
          EndsItsBody (markerHomomorphic ["R"]) b.prompt body completion) hs
    (fun _ _ _ _ _ _ => trivial) (fun t k lps reason m' u hprompt _ b hb' => by
      rw [hprompt b hb']
      refine .inl ⟨0, rfl, ⟨by decide, ⟨[7, 2, 1, 3, 9], rfl⟩, fun n hle hend => ?_⟩⟩
      -- the stream ends with the token 9, not with the ending
      rcases Nat.lt_or_ge 0 n with hpos | hz
      · have h1 : n = 1 := Nat.le_antisymm hle hpos
        subst h1
        obtain ⟨front, hfront⟩ := hend
        have := congrArg List.getLast? hfront
        simp [markerHomomorphic] at this
      · exact hz)
  exact absurd ((hall s _ m hrun hb).trans he.symm) (by decide)

end Streams

end RolloutProxy
