/-
  File:      RolloutProxy/Provider/Interleaved.lean
  Subject:   GENERATIONS AND RELEASES OF ONE STREAM SIDE BY SIDE: `generate` (rollout_base.py) cut
             at its awaits and at the lock sections of its threads, `release_session` between any
             two of the pieces.

  * Between two releases `_session_locks` holds one lock object of the stream: the number of
    releases before a call began names the lock the call waits for. Which waiter gets a free lock
    is left open.
  * `cached_turn` is two pieces, for its two lock sections; the object the first one finds is
    still the stream's where the stream's state has the same turn (`holdsTurn`). An object that
    left the table has the replay count the event says.
  * With nothing between them the two pieces of a thread are its operation (`resolvePinned_eq`,
    `serveFound_eq`); the other pieces are the parts of `beginGenerate` and `finishGenerate`.
-/
import RolloutProxy.Provider.Effects
import RolloutProxy.Lib.Run
import Mathlib.Logic.Function.Basic

namespace RolloutProxy

/-! ## 1. The pieces of a call -/

/-- What a call under way awaits. -/
inductive Stage where
  /-- the stream's lock -/
  | waiting
  /-- the thread of `_resolve_for_session` -/
  | resolving
  /-- the same thread, with the pin it read -/
  | pinRead (pinned : Option String)
  /-- the thread of `cached_turn` -/
  | looking (r : ResolvedModel) (effort : Option String)
  /-- the same thread, with the state it found -/
  | looked (r : ResolvedModel) (effort : Option String) (found : Option SessionState)
  /-- the decoding of a re-served turn -/
  | serving (r : ResolvedModel) (turn : ReplayedTurn)
  /-- its turn in the event loop, without a hit -/
  | missed (r : ResolvedModel) (effort : Option String)
  /-- the thread of `build_prompt` -/
  | building (r : ResolvedModel) (effort : Option String)
  /-- the engine -/
  | calling (c : Pending)
  /-- the decoding of a sampled turn -/
  | decoding (c : Pending) (s : Sampled)

/-- The call waits for the lock still. -/
def Stage.isWaiting : Stage → Bool
  | .waiting => true
  | _ => false

/-- A call of `generate` under way. -/
structure Generation where
  args : GenerateArgs
  /-- the releases before it began: its lock object -/
  lock : Nat
  stage : Stage

/-- What an await brings. -/
inductive Awaited where
  | nothing
  /-- the replays of a found state that has left the table -/
  | replays (n : Nat)
  | answer (a : EngineAnswer)

/-- Where a piece of a call ends. -/
inductive Next where
  | awaits (stage : Stage)
  | ended (result : Except PyError Generated)

/-- `_resolve_for_session` behind its read of the pin, with the pin it sets. -/
def resolvePinned (cfg : ProviderConfig) (pinned model : Option String) :
    Except PyError (ResolvedModel × Option String) :=
  match pinned with
  | none =>
    match model with
    | none => refuse .noModel
    | some name =>
      if name = "" then refuse .noModel else (cfg.resolve name).map fun r => (r, some name)
  | some pinned =>
    if model.any fun name => name ≠ "" && name ≠ pinned then
      refuse (.modelSwitched pinned (model.getD ""))
    else (cfg.resolve pinned).map fun r => (r, none)

namespace TokenStreamManager

variable (c : ManagerConfig) (m : TokenStreamManager)

/-- The stream's state is the object with this turn. -/
def holdsTurn (sid : String) (turn : CommittedTurn) : Bool :=
  match m.sessions.get? sid with
  | none => false
  | some st => st.lastTurn.any fun t => t.id = turn.id

/-- `cached_turn` behind its lookup; `gone` is the replay count of a found object that left the
    table. -/
def serveFound (sid : String) (found : Option SessionState) (messages : List Fields)
    (effort : Option String) (gone : Nat) :
    Except PyError (Option ReplayedTurn) × TokenStreamManager :=
  match repeatedTurn found messages effort with
  | .error e => (.error e, m)
  | .ok none => (.ok none, m)
  | .ok (some (st, turn)) =>
    if m.holdsTurn sid turn then
      match m.sessions.get? sid with
      | none => (.ok none, m)
      | some now =>
        match m.spendReplay c sid now with
        | .error e => (.error e, m)
        | .ok m' => (.ok (some (replayOf st turn)), m')
    else if c.maxTurnReplays ≤ gone then (refuse (.replaysSpent gone), m)
    else (.ok (some (replayOf st turn)), m)

end TokenStreamManager

namespace Provider

variable (cfg : ProviderConfig) (p : Provider) (sid : String) (g : Generation)

/-- `self._session_models[session_id] = model`, where a pin is set. -/
def setPin : Option String → Provider
  | none => p
  | some name => { p with sessionModels := p.sessionModels.set sid name }

/-- The resolving thread to its end, and on to `cached_turn`. -/
def afterPin (pinned : Option String) : Next × Provider :=
  match resolvePinned cfg pinned g.args.model with
  | .error e => (.ended (.error e), p)
  | .ok (r, pin) =>
    match effectiveEffort r g.args.reasoningEffort with
    | .error e => (.ended (.error e), p.setPin sid pin)
    | .ok effort => (.awaits (.looking r effort), p.setPin sid pin)

/-- The second lock section of `cached_turn`. -/
def afterLookup (r : ResolvedModel) (effort : Option String) (found : Option SessionState)
    (gone : Nat) : Next × Provider :=
  match (p.manager r.profile.name).serveFound r.streams sid found g.args.messages effort gone with
  | (.error e, m) => (.ended (.error e), p.setManager r.profile.name m)
  | (.ok none, m) => (.awaits (.missed r effort), p.setManager r.profile.name m)
  | (.ok (some turn), m) => (.awaits (.serving r turn), p.setManager r.profile.name m)

/-- A re-served turn, decoded. -/
def served (r : ResolvedModel) (turn : ReplayedTurn) : Except PyError Generated :=
  match r.decode turn.completionIds with
  | .error e => .error e
  | .ok text => .ok ⟨turn.promptIds, turn.completionIds, turn.logProbs, turn.finishReason, text,
      turn.engineMeta⟩

/-- A stored rejection is raised again; else the prompt is built. -/
def afterMiss (r : ResolvedModel) (effort : Option String) : Next :=
  match p.rejectedRepeat sid g.args.messages effort with
  | .error e => .ended (.error e)
  | .ok (some e) => .ended (.error e)
  | .ok none => .awaits (.building r effort)

/-- The built prompt, and the engine called for it. -/
def afterBuild (r : ResolvedModel) (effort : Option String) : Next × Provider :=
  match p.buildPrompt r sid g.args.messages g.args.tools effort with
  | (.error e, p) => (.ended (.error e), p)
  | (.ok promptIds, p) =>
    match p.callFor cfg r sid g.args effort promptIds with
    | .error e => (.ended (.error e), p)
    | .ok c => (.awaits (.calling c), p)

/-- The engine's answer, noted and validated. -/
def afterAnswer (c : Pending) (answer : EngineAnswer) : Next × Provider :=
  match p.acceptAnswer cfg c answer with
  | (.error e, p) => (.ended (.error e), p)
  | (.ok s, p) => (.awaits (.decoding c s), p)

/-- The decoded turn, committed if the stream is pinned. -/
def afterDecode (c : Pending) (s : Sampled) : Next × Provider :=
  match c.model.decode s.tokenIds with
  | .error e => (.ended (.error e), p)
  | .ok text =>
    let out := p.commitSampled c s text
    (.ended out.1, out.2)

/-- One piece of a call that holds the lock. -/
def resume : Awaited → Option (Next × Provider)
  | .nothing =>
    match g.stage with
    | .resolving => some (.awaits (.pinRead (p.sessionModels.get? sid)), p)
    | .pinRead pinned => some (p.afterPin cfg sid g pinned)
    | .looking r effort =>
      some (.awaits (.looked r effort ((p.manager r.profile.name).sessions.get? sid)), p)
    | .serving r turn => some (.ended (served r turn), p)
    | .missed r effort => some (p.afterMiss sid g r effort, p)
    | .building r effort => some (p.afterBuild cfg sid g r effort)
    | .decoding c s => some (p.afterDecode c s)
    | _ => none
  | .replays n =>
    match g.stage with
    | .looked r effort found => some (p.afterLookup sid g r effort found n)
    | _ => none
  | .answer a =>
    match g.stage with
    | .calling c => some (p.afterAnswer cfg c a)
    | _ => none

/-! ## 2. The pieces of a thread, one after the other -/

/-- Resolving in one go is reading the pin and going on with it. -/
theorem resolvePinned_eq (model : Option String) :
    p.resolveForSession cfg sid model =
      (resolvePinned cfg (p.sessionModels.get? sid) model).map
        fun out => (out.1, p.setPin sid out.2) := by
  unfold resolveForSession resolvePinned
  cases p.sessionModels.get? sid with
  | none =>
    cases model with
    | none => rfl
    | some name =>
      simp only
      split
      · rfl
      · cases cfg.resolve name <;> rfl
  | some pinned =>
    simp only
    split
    · rfl
    · cases cfg.resolve pinned <;> rfl

end Provider

/-- `cached_turn` in one go is its lookup and what follows it. -/
theorem TokenStreamManager.serveFound_eq (c : ManagerConfig) (m : TokenStreamManager)
    (sid : String) (messages : List Fields) (effort : Option String) (gone : Nat) :
    m.cachedTurn c (some sid) messages effort =
      (m.serveFound c sid (m.sessions.get? sid) messages effort gone).1.map fun turn =>
        (turn, (m.serveFound c sid (m.sessions.get? sid) messages effort gone).2) := by
  unfold cachedTurn serveFound
  simp only
  cases hr : repeatedTurn (m.sessions.get? sid) messages effort with
  | error e => rfl
  | ok found =>
    cases found with
    | none => rfl
    | some out =>
      obtain ⟨st, turn⟩ := out
      obtain ⟨hst, hturn, -, -⟩ := repeatedTurn_some hr
      have hheld : m.holdsTurn sid turn = true := by
        simp only [holdsTurn, hst, hturn, Option.any_some, decide_true]
      simp only [hheld, hst, if_true, ok_bind]
      cases m.spendReplay c sid st with
      | error e => rfl
      | ok m' => rfl

/-! ## 3. The machine -/

/-- The calls made on one stream of a provider. -/
structure StreamCalls where
  provider : Provider
  /-- how often the stream has been released -/
  releases : Nat
  /-- how many generations have begun -/
  started : Nat
  calls : Nat → Option Generation
  /-- the call that holds a lock object -/
  holders : Nat → Option Nat
  returned : List (Nat × Except PyError Generated)

inductive CallEvent where
  | begin (a : GenerateArgs)
  | resume (t : Nat) (i : Awaited)
  | release

/-- Not a piece of a call before call `n`. -/
def CallEvent.isFrom (n : Nat) : CallEvent → Bool
  | .resume t _ => n ≤ t
  | _ => true

namespace StreamCalls

/-- A provider nobody calls. -/
def start (p : Provider) : StreamCalls := ⟨p, 0, 0, fun _ => none, fun _ => none, []⟩

variable (cfg : ProviderConfig) (sid : String) (w : StreamCalls)

/-- `generate` up to its lock. -/
def begin (a : GenerateArgs) : StreamCalls :=
  match a.check with
  | .error e =>
    { w with started := w.started + 1, returned := w.returned ++ [(w.started, .error e)] }
  | .ok _ =>
    { w with
      provider := w.provider.sessionLock sid
      started := w.started + 1
      calls := Function.update w.calls w.started (some ⟨a, w.releases, .waiting⟩) }

/-- A free lock is taken. -/
def acquire (t : Nat) (g : Generation) : StreamCalls :=
  { w with
    calls := Function.update w.calls t (some { g with stage := .resolving })
    holders := Function.update w.holders g.lock (some t) }

/-- A piece of call `t` has run; a call that ends leaves its lock. -/
def after (t : Nat) (g : Generation) : Next × Provider → StreamCalls
  | (.awaits stage, p) =>
    { w with
      provider := p
      calls := Function.update w.calls t (some { g with stage := stage }) }
  | (.ended result, p) =>
    { w with
      provider := p
      calls := Function.update w.calls t none
      holders := Function.update w.holders g.lock none
      returned := w.returned ++ [(t, result)] }

/-- `release_session`. -/
def release : StreamCalls :=
  { w with provider := w.provider.releaseSession sid, releases := w.releases + 1 }

def step : CallEvent → Option StreamCalls
  | .begin a => if a.sessionId = some sid then some (w.begin sid a) else none
  | .resume t i =>
    match w.calls t with
    | none => none
    | some g =>
      if g.stage.isWaiting then
        match i, w.holders g.lock with
        | .nothing, none => some (w.acquire t g)
        | _, _ => none
      else (w.provider.resume cfg sid g i).map (w.after t g)
  | .release => some (w.release sid)

end StreamCalls

end RolloutProxy
