/-
  File:      RolloutProxy/Echo/Runs.lean
  Subject:   TWO RUNS ON ONE STREAM that differ in their assistant echoes: every sequence of
             `build_prompt`, `commit`, the publication of a parsed completion, and
             `record_completion` for one agent of one session.

  * A run's state is a manager, a recorder, the prompt built last and the turn committed last; a
    recording delivers that turn, with the request it answered.
  * `Alike` relates the states of two runs that got the same engine outputs. Every pair of calls
    keeps it (`alike_step`), so `build_prompt` answers both runs alike.
  * `InStep` holds of one run whose every committed turn is recorded before the next commit; it
    stores no echo, so what two such runs store is equal.
-/
import RolloutProxy.Echo.Prompt
import RolloutProxy.Recorder.Alignment
import RolloutProxy.Service.Ids
import RolloutProxy.Tokenization.GptOss
import RolloutProxy.Lib.Run

namespace RolloutProxy

/-! ## 1. A run on one stream -/

/-- The part of a request the stream manager reads. -/
structure PromptRequest where
  messages : List Fields
  tools : Json
  effort : Option String

/-- What the engine answered. -/
structure EngineOutput where
  completionIds : List Int
  logProbs : Option (List PyFloat)
  finishReason : Option String
  engineMeta : EngineMeta

/-- A committed turn, and whether a recording of it reached the record. -/
structure ServedTurn where
  request : PromptRequest
  promptIds : List Int
  output : EngineOutput
  recorded : Bool

structure StreamRun where
  manager : TokenStreamManager
  recorder : SessionRecorder
  pending : Option (PromptRequest × List Int)
  served : Option ServedTurn

/-- The calls of a run. A recording brings the parsed fields of the turn and where it fails. -/
inductive StreamCall where
  | build (request : PromptRequest)
  | commit (output : EngineOutput)
  | publish (parsed : ParsedCompletion)
  | record (now : Rat) (fields : Delivery) (fault : Option RecordFault)

/-- A parsed completion is published once into the last turn of a stream. -/
def TokenStreamManager.publishParsed (m : TokenStreamManager) (sid : String)
    (parsed : ParsedCompletion) : TokenStreamManager :=
  match (m.sessions.get? sid).bind (·.lastTurn) with
  | none => m
  | some turn => if turn.parsedCompletion.isSome then m else m.setParsed sid turn.id parsed

/-- The delivery of a served turn. -/
def ServedTurn.delivery (s : ServedTurn) (agent : String) (fields : Delivery) : Delivery :=
  { fields with
    messages := s.request.messages
    promptTokenIds := s.promptIds
    tokenIds := s.output.completionIds
    agentId := some agent }

section Runs

variable (c : ManagerConfig) (session agent : String)

namespace StreamRun

variable (x : StreamRun)

/-- The answer of `build_prompt`. -/
def answer (request : PromptRequest) : Except PyError (List Int) :=
  (x.manager.buildPrompt c (some (streamId session agent)) request.messages request.tools
    request.effort).1

/-- The stream's state. -/
def state : Option SessionState := x.manager.sessions.get? (streamId session agent)

/-- The agent's recorded turns. -/
def turns : List CompletionRecord := x.recorder.recordedTurns session (some agent)

/-- What the recording of a turn changes or confirms in the record, if it reaches it. -/
def landing (s : ServedTurn) (now : Rat) (fields : Delivery) (fault : Option RecordFault) :
    Option Placement :=
  x.recorder.landing now session (s.delivery agent fields) fault

def build (request : PromptRequest) : StreamRun :=
  { x with
    manager := (x.manager.buildPrompt c (some (streamId session agent)) request.messages
      request.tools request.effort).2
    pending := (x.answer c session agent request).toOption.map fun ids => (request, ids) }

def commitTurn (request : PromptRequest) (promptIds : List Int) (o : EngineOutput) :
    Option StreamRun :=
  match x.manager.commit c (streamId session agent) request.messages promptIds o.completionIds
      o.logProbs o.finishReason o.engineMeta request.tools request.effort with
  | .error _ => none
  | .ok m => some { x with
      manager := m
      pending := none
      served := some ⟨request, promptIds, o, false⟩ }

def record (s : ServedTurn) (now : Rat) (fields : Delivery) (fault : Option RecordFault) :
    StreamRun :=
  { x with
    recorder := (x.recorder.recordCompletion now session (s.delivery agent fields) fault).2
    served := some { s with
      recorded := s.recorded || (x.landing session agent s now fields fault).isSome } }

/-- One call. -/
def step : StreamCall → Option StreamRun
  | .build request => some (x.build c session agent request)
  | .commit o => x.pending.bind fun p => x.commitTurn c session agent p.1 p.2 o
  | .publish parsed =>
    some { x with manager := x.manager.publishParsed (streamId session agent) parsed }
  | .record now fields fault => x.served.map fun s => x.record session agent s now fields fault

/-- Nothing was served on the stream so far. -/
structure Fresh : Prop where
  pending : x.pending = none
  served : x.served = none
  state : x.state session agent = none
  turns : x.turns session agent = []

/-- The call repeats the run's own echoes unchanged. -/
def Keeps : StreamCall → Prop
  | .build request => EchoesKept c (x.state session agent) request.messages
  | _ => True

/-- The turn committed last is recorded before another one is committed. -/
def Recorded : StreamCall → Prop
  | .commit _ => ∀ s, x.served = some s → s.recorded = true
  | _ => True

end StreamRun

/-- Two calls with the same engine output, tools and effort, and requests that agree on every
    non-assistant message. A hook reads the parsed completion, which then is the same. -/
def StreamCall.Alike : StreamCall → StreamCall → Prop
  | .build r, .build r' => Agree r.messages r'.messages ∧ r.tools = r'.tools ∧ r.effort = r'.effort
  | .commit o, .commit o' => o = o'
  | .publish p, .publish p' => c.prepareDeltaMessages = none ∨ p = p'
  | .record now _ fault, .record now' _ fault' => now = now' ∧ fault = fault'
  | _, _ => False

/-- The two runs, call by call. -/
def pairStep (x : StreamRun × StreamRun) (k : StreamCall × StreamCall) :
    Option (StreamRun × StreamRun) :=
  match x.1.step c session agent k.1, x.2.step c session agent k.2 with
  | some y, some y' => some (y, y')
  | _, _ => none

/-- What the two runs are told: alike calls that repeat each run's own echoes. -/
def EchoRuns (x : StreamRun × StreamRun) (k : StreamCall × StreamCall)
    (_ : StreamRun × StreamRun) : Prop :=
  k.1.Alike c k.2 ∧ x.1.Keeps c session agent k.1 ∧ x.2.Keeps c session agent k.2

/-! ## 2. Recorded turns of two runs -/

end Runs

/-- The same recorded turn, up to the echoes in its request and the parsed fields. -/
structure SameTurn (t t' : CompletionRecord) : Prop where
  prompt : t.promptTokenIds = t'.promptTokenIds
  completion : t.completionTokenIds = t'.completionTokenIds
  new : t.newConversation = t'.newConversation
  messages : Agree t.requestMessages t'.requestMessages
  echoes : EchoesNormal t.requestMessages
  echoes' : EchoesNormal t'.requestMessages

theorem EchoesNormal.of_no_assistant {l : List Fields} (h : l.any isAssistant = false) :
    EchoesNormal l := by
  intro m hm ha
  have := List.any_eq_false.mp h m hm
  exact absurd ha this

/-- The non-assistant messages of agreeing lists are the same. -/
theorem Agree.nonAssistant_eq {l l' : List Fields} (h : Agree l l') :
    nonAssistant l = nonAssistant l' :=
  (h.filter (p := fun m => !isAssistant m) (by simp)).eq_of_no_assistant
    (nonAssistant_no_assistant l)

theorem sinceReset_same {turns turns' : List CompletionRecord}
    (h : List.Forall₂ SameTurn turns turns') :
    List.Forall₂ SameTurn (sinceReset turns) (sinceReset turns') := by
  induction h with
  | nil => exact .nil
  | @cons t t' ts ts' ht _ ih =>
      simp only [sinceReset, ht.new]
      split
      · exact .cons ht .nil
      · exact .cons ht ih

theorem currentConversation_same {turns turns' : List CompletionRecord}
    (h : List.Forall₂ SameTurn turns turns') :
    List.Forall₂ SameTurn (currentConversation turns) (currentConversation turns') :=
  List.rel_reverse (sinceReset_same (List.rel_reverse h))

/-- What the turns of a conversation add up to counts no echo. -/
theorem lengths_same {turns turns' : List CompletionRecord}
    (h : List.Forall₂ SameTurn turns turns') :
    (turns.flatMap fun t => nonAssistant t.requestMessages).length =
        (turns'.flatMap fun t => nonAssistant t.requestMessages).length ∧
      (turns.flatMap CompletionRecord.tokens).length =
        (turns'.flatMap CompletionRecord.tokens).length := by
  induction h with
  | nil => exact ⟨rfl, rfl⟩
  | @cons t t' ts ts' ht _ ih =>
      simp only [List.flatMap_cons, List.length_append, ht.messages.nonAssistant_eq,
        CompletionRecord.tokens, ht.prompt, ht.completion]
      exact ⟨by rw [ih.1], by rw [show _ = _ from ih.2]⟩

/-- **The extent of a conversation counts no echo.** -/
theorem conversationExtent_same {turns turns' : List CompletionRecord}
    (h : List.Forall₂ SameTurn turns turns') :
    conversationExtent turns = conversationExtent turns' := by
  rw [conversationExtent_eq, conversationExtent_eq]
  exact Prod.ext (lengths_same (currentConversation_same h)).1
    (lengths_same (currentConversation_same h)).2

theorem getLast?_same {turns turns' : List CompletionRecord}
    (h : List.Forall₂ SameTurn turns turns') :
    (turns.getLast? = none ∧ turns'.getLast? = none) ∨
      ∃ t t', turns.getLast? = some t ∧ turns'.getLast? = some t' ∧ SameTurn t t' := by
  induction h with
  | nil => exact .inl ⟨rfl, rfl⟩
  | @cons t t' ts ts' ht hts ih =>
      refine .inr ?_
      rcases ih with ⟨hn, hn'⟩ | ⟨u, u', hu, hu', huu⟩
      · rw [List.getLast?_eq_none_iff] at hn hn'
        subst hn hn'
        exact ⟨t, t', rfl, rfl, ht⟩
      · exact ⟨u, u', by simp [List.getLast?_cons, hu], by simp [List.getLast?_cons, hu'], huu⟩

/-- An opening is compared with two spellings of a recorded request alike. -/
theorem normalizeAlike_same {l m m' : List Fields} (hl : l.any isAssistant = false)
    (h : Agree m m') (hm : EchoesNormal m) (hm' : EchoesNormal m') :
    normalizeAlike l m = normalizeAlike l m' := by
  unfold normalizeAlike
  cases hn : normalizeMessages l with
  | error e => rfl
  | ok n =>
      rcases normalizeMessages_agree h hm hm' with ⟨e, he, he'⟩ | ⟨k, k', hk, hk', hkk⟩
      · rw [he, he']
      · rw [hk, hk']
        simp only [Except.ok.injEq]
        have hno : n.any isAssistant = false := by rw [normalizeMessages_any hn, hl]
        have differ : ∀ {y : List Fields}, y.any isAssistant = true → sameMessages n y = false := by
          intro y hy
          by_contra hs
          have hpos := sameMessages_isAssistant (by simpa using hs) (normalizeFrom_supported hn)
          have := congrArg (fun x => x.any id) hpos
          simp only [List.any_map, Function.id_comp] at this
          rw [hno, hy] at this
          cases this
        by_cases ha : k.any isAssistant = true
        · rw [differ ha, differ (hkk.any_assistant ▸ ha)]
        · rw [hkk.eq_of_no_assistant (by simpa using ha)]

/-- Two placements of a turn: the same decision, up to the echoes of a turn stored in full. -/
def PlacedAlike : Except PyError Placement → Except PyError Placement → Prop
  | .error e, .error e' => e = e'
  | .ok .duplicate, .ok .duplicate => True
  | .ok (.turn new messages ids), .ok (.turn new' messages' ids') =>
    new = new' ∧ ids = ids' ∧ Agree messages messages' ∧ EchoesNormal messages ∧
      EchoesNormal messages'
  | _, _ => False

/-- **The recorder places both deliveries alike.** -/
theorem placeTurn_same {turns turns' : List CompletionRecord} {d d' : Delivery}
    (h : List.Forall₂ SameTurn turns turns') (hm : Agree d.messages d'.messages)
    (he : EchoesNormal d.messages) (he' : EchoesNormal d'.messages)
    (hp : d.promptTokenIds = d'.promptTokenIds) (ht : d.tokenIds = d'.tokenIds) :
    PlacedAlike (placeTurn turns d) (placeTurn turns' d') := by
  have full : PlacedAlike (.ok (.turn true d.messages d.promptTokenIds))
      (.ok (.turn true d'.messages d'.promptTokenIds)) := ⟨rfl, hp, hm, he, he'⟩
  unfold placeTurn
  rw [← hm.any_assistant]
  rcases getLast?_same h with ⟨hl, hl'⟩ | ⟨t, t', hl, hl', htt⟩
  · rw [hl, hl']
    by_cases ha : d.messages.any isAssistant = true
    · simp only [if_pos ha]
      exact full
    · simp only [if_neg ha]
      exact full
  · rw [hl, hl']
    by_cases ha : d.messages.any isAssistant = true
    · simp only [if_pos ha]
      unfold placeContinuation
      simp only [← conversationExtent_same h, ← hm.nonAssistant_eq, ← ht, ← htt.completion, ← hp]
      split
      · exact trivial
      · split
        · exact ⟨rfl, rfl, hm, he, he'⟩
        · have hn := drop_no_assistant (nonAssistant_no_assistant d.messages)
            (conversationExtent turns).1
          exact ⟨rfl, rfl, rfl, .of_no_assistant hn, .of_no_assistant hn⟩
    · have hno : d.messages.any isAssistant = false := by simpa using ha
      have heq : d.messages = d'.messages := hm.eq_of_no_assistant hno
      simp only [if_neg ha]
      unfold placeOpening
      simp only [← htt.new, ← heq, ← hp, ← ht, ← htt.completion, ← htt.prompt,
        ← normalizeAlike_same hno htt.messages htt.echoes htt.echoes']
      have full' : PlacedAlike (.ok (.turn true d.messages d.promptTokenIds))
          (.ok (.turn true d.messages d.promptTokenIds)) := ⟨rfl, rfl, rfl, he, he⟩
      cases normalizeAlike d.messages t.requestMessages with
      | error e =>
          simp only [error_bind]
          split
          · exact rfl
          · exact full'
      | ok same =>
          simp only [ok_bind]
          split
          · split
            · exact trivial
            · exact full'
          · exact full'

end RolloutProxy
