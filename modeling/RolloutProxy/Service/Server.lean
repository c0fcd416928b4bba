/-
  File:      RolloutProxy/Service/Server.lean
  Subject:   THE WHOLE SERVER (service.py, over `make_completion_handler` of a provider): the tasks
             of Lifecycle.lean with what they compute, the recorder, the provider and the clock.

  * `chat`, `finalize` and `delete` are the endpoints; `leave` is the answer of a request.
  * `advance` is a pipeline from await to await: `_call_handler`, `generate`, `parse_completion`,
    `record_completion`, `mark_recording_failed`.
  * `to_thread` starts a thread and waits for it: `thread` is the thread's own step. A task that is
    cancelled leaves its thread behind; only `_run_state_update` stays with it (`draining`).
  * The engine, the parser, worker faults and the clock come with the events; a callback that
    raises has released nothing.
-/
import RolloutProxy.Service.Lifecycle
import RolloutProxy.Provider.Footprint
import RolloutProxy.Recorder.Recorder

namespace RolloutProxy

/-! ## 1. What a turn computes -/

structure ServerConfig where
  provider : ProviderConfig
  /-- `resolve_profile` -/
  profile : String → Except PyError Profile

/-- What a completion request is answered. -/
inductive Answer where
  /-- the session was deleted -/
  | deleted
  /-- `generate` raised -/
  | failed (e : PyError)
  /-- parsing or recording raised behind the commit -/
  | unrecorded (e : PyError)
  | served (g : Generated) (parsed : ParsedCompletion)

/-- The status of a failed generation. -/
def PyError.status : PyError → Nat
  | .unknownModel _ => 404
  | .tokenStream _ => 400
  | .httpStatus status _ => if status < 500 then status else 502
  | _ => 500

def Answer.status : Answer → Nat
  | .deleted => 410
  | .failed e => e.status
  | .unrecorded _ => 500
  | .served _ _ => 200

/-- Where a pipeline stands. -/
inductive TurnStage where
  | fresh
  | generating (g : Generation)
  /-- cancelled while a thread works on the provider's state -/
  | draining (g : Generation)
  | parsing (parser : ToolParser) (r : ResolvedModel) (turn : Option CommittedTurn) (g : Generated)
  | recording (g : Generated) (parsed : ParsedCompletion)
  | marking (e : PyError)
  | ended (answer : Option Answer)

/-- The await of a state update: its thread is at work. -/
def Stage.inThread : Stage → Bool
  | .resolving | .pinRead _ | .looking _ _ | .looked _ _ _ | .building _ _ => true
  | _ => false

/-- The second piece of a state update's thread. -/
def Stage.sameThread : Stage → Bool
  | .pinRead _ | .looked _ _ _ => true
  | _ => false

inductive ThreadId where
  | record (n : Nat)
  | mark (n : Nat)
  | sealing (f : Nat)
  /-- a state update whose pipeline was cancelled twice -/
  | update (n : Nat)
  deriving DecidableEq

inductive ThreadWork where
  | record (session : String) (d : Delivery)
  | mark (session agent : String) (messages : List Fields) (promptIds ids : List Int)
  | sealing (session : String)
  | update (stream : String) (g : Generation)

inductive Thread where
  | running (work : ThreadWork)
  | finished (result : Except PyError Unit)

/-- What a pipeline's await brings. -/
inductive TurnInput where
  | go (i : Awaited)
  /-- the parser is through; the ids of the calls it found -/
  | parsed (callId : Nat → String)

/-! ## 2. The state -/

structure LLMProxyServer where
  life : Lifecycle
  now : Rat
  recorder : SessionRecorder
  provider : Provider
  /-- how often a stream was released: names the provider's lock objects -/
  releases : String → Nat
  /-- the pipeline that holds a lock object of the provider -/
  sessionHolders : String × Nat → Option Nat
  bodies : Nat → Option GenerateArgs
  turns : Nat → Option TurnStage
  threads : ThreadId → Option Thread
  answers : Nat → Option Answer

inductive ServerEvent where
  | tick (d : Rat)
  | capture (enabled : Option Bool)
  | sampling (overrides : Json)
  | chat (session agent : String) (body : GenerateArgs)
  | acquire (n : Nat)
  | disconnect (n : Nat)
  | leave (n : Nat)
  | turn (n : Nat) (i : TurnInput)
  | interrupt (n : Nat)
  | unlock (n : Nat)
  | untrack (n : Nat)
  | thread (t : ThreadId) (fault : Option RecordFault) (i : Awaited)
  | finalize (session : String)
  | drain (f : Nat)
  | close (f : Nat)
  | delete (session : String)
  | cancelAll (d : Nat)
  | release (d : Nat) (raising : List String)
  | forget (d : Nat)

namespace LLMProxyServer

def start (p : Provider) : LLMProxyServer where
  life := .empty
  now := 0
  recorder := .empty
  provider := p
  releases := fun _ => 0
  sessionHolders := fun _ => none
  bodies := fun _ => none
  turns := fun _ => none
  threads := fun _ => none
  answers := fun _ => none

variable (cfg : ServerConfig) (w : LLMProxyServer)

/-- `is_deleted`. -/
def isDeleted (session : String) : Bool := w.recorder.tombstoned w.now session

/-! ## 3. The pipeline -/

def setTurn (n : Nat) (stage : TurnStage) : LLMProxyServer :=
  { w with turns := Function.update w.turns n (some stage) }

def setThread (t : ThreadId) (x : Thread) : LLMProxyServer :=
  { w with threads := Function.update w.threads t (some x) }

/-- The provider's lock of a generation is left. -/
def leaveLock (a : Admitted) (g : Generation) : LLMProxyServer :=
  if g.stage.isWaiting then w
  else { w with sessionHolders := Function.update w.sessionHolders (a.stream, g.lock) none }

/-- The pipeline's task ends. -/
def finishTurn (n : Nat) (e : Ending) (answer : Option Answer) : Option LLMProxyServer :=
  (w.life.step (.finish n e)).map fun life =>
    { w with life := life, turns := Function.update w.turns n (some (.ended answer)) }

/-- What `_run_completion` asks the provider for: a continuation brings the recorded coverage. -/
def handlerArgs (a : Admitted) (body : GenerateArgs) : GenerateArgs :=
  let prior :=
    if body.messages.any isAssistant then
      (w.recorder.getSession a.session).bind (·.routedExperts.get? a.agent)
    else none
  { body with
    sessionId := some a.stream
    routedExpertsPrior := prior.map fun b => (b.rows, b.cols) }

/-- What `_run_completion` records of a turn. -/
def delivery (a : Admitted) (body : GenerateArgs) (g : Generated) (parsed : ParsedCompletion) :
    Delivery where
  messages := body.messages
  completionText := g.completionText
  tokenIds := g.tokenIds
  logprobs := g.logProbs
  finishReason := some parsed.finishReason
  promptTokenIds := g.promptIds
  agentId := some a.agent
  content := parsed.content
  reasoningContent := parsed.reasoningContent
  toolCalls := parsed.toolCalls
  weightVersion := g.engineMeta.weightVersion
  routedExperts := g.engineMeta.routedExperts.elim .absent .blob
  samplingParams := g.engineMeta.samplingParams

def startRecording (n : Nat) (a : Admitted) (body : GenerateArgs) (g : Generated)
    (parsed : ParsedCompletion) : LLMProxyServer :=
  (w.setThread (.record n) (.running (.record a.session (delivery a body g parsed)))).setTurn n
    (.recording g parsed)

def startMarking (n : Nat) (a : Admitted) (body : GenerateArgs) (g : Generated) (e : PyError) :
    LLMProxyServer :=
  (w.setThread (.mark n)
    (.running (.mark a.session a.agent body.messages g.promptIds g.tokenIds))).setTurn n (.marking e)

/-- A committed or re-served turn goes to its parser. -/
def parseTurn (n : Nat) (a : Admitted) (body : GenerateArgs) (g : Generated) : LLMProxyServer :=
  match w.provider.beginParse cfg.provider a.stream g.tokenIds g.completionText g.finishReason with
  | .done (.error e) => w.startMarking n a body g e
  | .done (.ok parsed) => w.startRecording n a body g parsed
  | .decoding parser r turn => w.setTurn n (.parsing parser r turn g)

/-- The thread of a state update goes on behind a cancellation; the pipeline ends with it. -/
def drainThread (n : Nat) (a : Admitted) (g : Generation) (stage : Generation → TurnStage)
    (i : Awaited) : Option LLMProxyServer :=
  match w.provider.resume cfg.provider a.stream g i with
  | none => none
  | some (.awaits s, p) =>
    if s.sameThread then
      some ({ w with provider := p }.setTurn n (stage { g with stage := s }))
    else ({ w with provider := p }.leaveLock a g).finishTurn n .cancelled none
  | some (.ended _, p) => ({ w with provider := p }.leaveLock a g).finishTurn n .cancelled none

/-- A generation up to its next await. -/
def generateOn (n : Nat) (a : Admitted) (body : GenerateArgs) (g : Generation) (i : Awaited) :
    Option LLMProxyServer :=
  if g.stage.isWaiting then
    match i, w.sessionHolders (a.stream, g.lock) with
    | .nothing, none =>
      some ({ w with
        sessionHolders := Function.update w.sessionHolders (a.stream, g.lock) (some n) }.setTurn n
          (.generating { g with stage := .resolving }))
    | _, _ => none
  else
    match w.provider.resume cfg.provider a.stream g i with
    | none => none
    | some (.awaits s, p) =>
      some ({ w with provider := p }.setTurn n (.generating { g with stage := s }))
    | some (.ended (.error e), p) =>
      ({ w with provider := p }.leaveLock a g).finishTurn n .returned (some (.failed e))
    | some (.ended (.ok out), p) =>
      some (({ w with provider := p }.leaveLock a g).parseTurn cfg n a body out)

/-- `_call_handler` and the handler behind it, up to the stream's lock in the provider. -/
def beginTurn (n : Nat) (a : Admitted) (body : GenerateArgs) : Option LLMProxyServer :=
  if w.isDeleted a.session then w.finishTurn n .returned (some .deleted)
  else
    match (w.handlerArgs a body).check with
    | .error e => w.finishTurn n .returned (some (.failed e))
    | .ok _ =>
      some ({ w with provider := w.provider.sessionLock a.stream }.setTurn n
        (.generating ⟨w.handlerArgs a body, w.releases a.stream, .waiting⟩))

/-- **The pipeline of request `n`**, from one await to the next. -/
def advance (n : Nat) (a : Admitted) (body : GenerateArgs) :
    TurnStage → TurnInput → Option LLMProxyServer
  | .fresh, .go .nothing => w.beginTurn n a body
  | .generating g, .go i => w.generateOn cfg n a body g i
  | .draining g, .go i => w.drainThread cfg n a g .draining i
  | .parsing parser r turn g, .parsed callId =>
    match w.provider.finishParse parser r turn a.stream g.tokenIds g.completionText g.finishReason
        body.tools callId with
    | (.error e, p) => some ({ w with provider := p }.startMarking n a body g e)
    | (.ok parsed, p) => some ({ w with provider := p }.startRecording n a body g parsed)
  | .recording g parsed, .go .nothing =>
    match w.threads (.record n) with
    | some (.finished (.ok ())) => w.finishTurn n .returned (some (.served g parsed))
    | some (.finished (.error e)) => some (w.startMarking n a body g e)
    | _ => none
  | .marking e, .go .nothing =>
    match w.threads (.mark n) with
    | some (.finished (.ok ())) => w.finishTurn n .returned (some (.unrecorded e))
    | some (.finished (.error _)) => w.finishTurn n .raised none
    | _ => none
  | _, _ => none

/-- The pipeline's next piece; behind a cancellation on its way only a thread goes on. -/
def turnStep (n : Nat) (i : TurnInput) : Option LLMProxyServer :=
  match w.life.running (.turn n), w.life.admitted n, w.bodies n, w.turns n with
  | some t, some a, some body, some stage =>
    if t.due then
      match stage, i with
      | .generating g, .go i =>
        if g.stage.inThread then w.drainThread cfg n a g .generating i else none
      | .draining g, .go i => w.drainThread cfg n a g .draining i
      | _, _ => none
    else w.advance cfg n a body stage i
  | _, _, _, _ => none

/-- A `CancelledError` is thrown into the pipeline. -/
def interruptTurn (n : Nat) : Option LLMProxyServer :=
  match w.life.running (.turn n), w.life.admitted n, w.turns n with
  | some t, some a, some stage =>
    if !t.due then none else
    match stage with
    | .generating g =>
      if g.stage.inThread then
        (w.life.step (.interrupt n)).map fun life => { w with life := life }.setTurn n (.draining g)
      else (w.leaveLock a g).finishTurn n .cancelled none
    | .draining g =>
      ((w.setThread (.update n) (.running (.update a.stream g))).leaveLock a g).finishTurn n
        .cancelled none
    | _ => w.finishTurn n .cancelled none
  | _, _, _ => none

/-! ## 4. Threads -/

/-- The thread's own step; a state update has two pieces at most. -/
def perform (t : ThreadId) (fault : Option RecordFault) (i : Awaited) :
    ThreadWork → Option LLMProxyServer
  | .record session d =>
    let out := w.recorder.recordCompletion w.now session d fault
    some ({ w with recorder := out.2 }.setThread t (.finished out.1))
  | .mark session agent messages promptIds ids =>
    let out := w.recorder.markRecordingFailed w.now session (some agent) messages promptIds ids
    some ({ w with recorder := out.2 }.setThread t (.finished out.1))
  | .sealing session =>
    match w.recorder.finalizeSession session with
    | .ok r => some ({ w with recorder := r }.setThread t (.finished (.ok ())))
    | .error e => some (w.setThread t (.finished (.error e)))
  | .update stream g =>
    match w.provider.resume cfg.provider stream g i with
    | none => none
    | some (.awaits s, p) =>
      some ({ w with provider := p }.setThread t
        (if s.sameThread then .running (.update stream { g with stage := s }) else .finished (.ok ())))
    | some (.ended _, p) => some ({ w with provider := p }.setThread t (.finished (.ok ())))

def threadStep (t : ThreadId) (fault : Option RecordFault) (i : Awaited) : Option LLMProxyServer :=
  match w.threads t with
  | some (.running work) => w.perform cfg t fault i work
  | _ => none

/-! ## 5. The endpoints -/

/-- `chat_completions` from its deletion check on: the status it is refused with, or admitted. -/
def chat (session agent : String) (body : GenerateArgs) : Except Nat LLMProxyServer :=
  if !isSessionId session || !isSessionId agent then .error 401 else
  if w.isDeleted session then .error 410 else
  match body.model with
  | none => .error 400
  | some model =>
    match cfg.profile model with
    | .error (.unknownModel _) => .error 404
    | .error _ => .error 500
    | .ok profile =>
      match validateReasoningEffort body.reasoningEffort profile.reasoningEfforts with
      | .error _ => .error 400
      | .ok _ =>
        match w.life.step (.admission session agent) with
        | none => .error 409
        | some life => .ok
          { w with
            life := life
            recorder := w.recorder.ensureSession w.now session (some model)
            bodies := Function.update w.bodies w.life.created (some body) }

/-- The request gets its lock; the pipeline is created. -/
def acquire (n : Nat) : Option LLMProxyServer :=
  (w.life.step (.acquire n)).map fun life => { w with life := life }.setTurn n .fresh

/-- How request `n` ends: with its turn's answer, or cancelled; 410 where its session is deleted. -/
def outcome (n : Nat) (t : Task) : Option (Ending × Option Answer) :=
  let torn : Ending × Option Answer :=
    if w.isDeleted t.session then (.returned, some .deleted) else (.cancelled, none)
  if t.due then some torn else
  match (w.life.tasks (.turn n)).bind (·.ending), w.turns n with
  | some .returned, some (.ended answer) => some (.returned, answer)
  | some .raised, _ => some (.raised, none)
  | some .cancelled, _ => some torn
  | _, _ => none

def leave (n : Nat) : Option LLMProxyServer :=
  match w.life.running (.request n) with
  | none => none
  | some t =>
    match w.outcome n t with
    | none => none
    | some (e, answer) =>
      (w.life.step (.leave n e)).map fun life =>
        { w with life := life, answers := Function.update w.answers n answer }

/-- `finalize_session` where it creates the task; a missing or deleted session is refused. -/
def finalize (session : String) : Option LLMProxyServer :=
  if w.isDeleted session || (w.recorder.getSession session).isNone then none else
  (w.life.step (.finalize session)).map fun life => { w with life := life }

/-- One round of the drain; behind the last one the record is sealed in a thread. -/
def drain (f : Nat) : Option LLMProxyServer :=
  match w.life.running (.finalization f), w.life.step (.drain f) with
  | some t, some life =>
    let w := { w with life := life }
    some (if life.drained f = some true then
      w.setThread (.sealing f) (.running (.sealing t.session)) else w)
  | _, _ => none

/-- `_finalize_session` ends: cancelled, or with its thread's result. -/
def close (f : Nat) : Option LLMProxyServer :=
  match w.life.running (.finalization f) with
  | none => none
  | some t =>
    let ending : Option Ending :=
      if t.due then some .cancelled else
      match w.threads (.sealing f) with
      | some (.finished (.ok ())) => some .returned
      | some (.finished (.error _)) => some .raised
      | _ => none
    match ending with
    | none => none
    | some e => (w.life.step (.close f e)).map fun life => { w with life := life }

/-- `delete_session` where it creates the task. -/
def delete (session : String) : Option LLMProxyServer :=
  (w.life.step (.delete session)).map fun life =>
    { w with life := life, recorder := w.recorder.deleteSession w.now session }

/-- `on_session_deleted` for every stream but those whose callback raises. -/
def release (d : Nat) (raising : List String) : Option LLMProxyServer :=
  match w.life.running (.deletion d), w.life.step (.release d raising) with
  | some t, some life =>
    let released := (w.life.toRelease t.session).filter (· ∉ raising)
    some { w with
      life := life
      provider := released.foldl (fun p x => p.releaseSession x) w.provider
      releases := fun x => if x ∈ released then w.releases x + 1 else w.releases x }
  | _, _ => none

/-! ## 6. The machine -/

/-- An event of the tasks alone. -/
def lifeOnly (e : LifeEvent) : Option LLMProxyServer :=
  (w.life.step e).map fun life => { w with life := life }

def step : ServerEvent → Option LLMProxyServer
  | .tick d => if 0 ≤ d then some { w with now := w.now + d } else none
  | .capture enabled => some { w with provider := w.provider.setRuntimeCapture enabled }
  | .sampling overrides =>
    match w.provider.setRuntimeSampling cfg.provider overrides with
    | .error _ => none
    | .ok p => some { w with provider := p }
  | .chat session agent body =>
    match w.chat cfg session agent body with
    | .error _ => none
    | .ok w' => some w'
  | .acquire n => w.acquire n
  | .disconnect n => w.lifeOnly (.disconnect n)
  | .leave n => w.leave n
  | .turn n i => w.turnStep cfg n i
  | .interrupt n => w.interruptTurn n
  | .unlock n => w.lifeOnly (.unlock n)
  | .untrack n => w.lifeOnly (.untrack n)
  | .thread t fault i => w.threadStep cfg t fault i
  | .finalize session => w.finalize session
  | .drain f => w.drain f
  | .close f => w.close f
  | .delete session => w.delete session
  | .cancelAll d => w.lifeOnly (.cancelAll d)
  | .release d raising => w.release d raising
  | .forget d => w.lifeOnly (.forget d)

end LLMProxyServer

end RolloutProxy
