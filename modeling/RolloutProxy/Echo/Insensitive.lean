/-
  File:      RolloutProxy/Echo/Insensitive.lean
  Subject:   THE ECHO CANNOT INFLUENCE THE TOKEN STREAM: two runs with the same engine outputs, whose
             requests differ in their echoes only, build the same prompts, commit the same streams
             and record the same prompt deltas.

  * `alike_step`: every pair of alike calls keeps `Alike`.
  * `inStep_step`: a run that records every turn before the next commit stores no echo.
  * **`echo_insensitive`** assembles both; `stored_request_differs` is why the stored request
    messages need the second: behind a turn whose recording failed, a request is stored in full.
-/
import RolloutProxy.Echo.Runs
import RolloutProxy.TokenStream.Continuation

namespace RolloutProxy

/-! ## 1. Runs that are alike -/

/-- The messages pass `normalize_messages`. -/
def Normalizes (messages : List Fields) : Prop := ∃ n, normalizeMessages messages = .ok n

/-- Two accepted requests that agree. -/
structure RequestsAlike (r r' : PromptRequest) : Prop where
  messages : Agree r.messages r'.messages
  tools : r.tools = r'.tools
  effort : r.effort = r'.effort
  normal : Normalizes r.messages
  normal' : Normalizes r'.messages

/-- Both or neither, and related. -/
def BothOrNone {α β : Type} (R : α → β → Prop) : Option α → Option β → Prop
  | none, none => True
  | some a, some b => R a b
  | _, _ => False

structure ServedAlike (s s' : ServedTurn) : Prop where
  request : RequestsAlike s.request s'.request
  prompt : s.promptIds = s'.promptIds
  output : s.output = s'.output
  recorded : s.recorded = s'.recorded

section Runs

variable (c : ManagerConfig) (session agent : String)

/-- The states of two runs that differ in echoes only. -/
structure Alike (x x' : StreamRun) : Prop where
  manager : x.manager.seen c = x'.manager.seen c
  deleted : x.recorder.deleted = x'.recorder.deleted
  turns : List.Forall₂ SameTurn (x.turns session agent) (x'.turns session agent)
  pending : BothOrNone (fun p p' => RequestsAlike p.1 p'.1 ∧ p.2 = p'.2) x.pending x'.pending
  served : BothOrNone ServedAlike x.served x'.served

variable {c session agent}

theorem normalizeFrom_mem : ∀ {i : Nat} {l n : List Fields}, normalizeFrom i l = .ok n →
    ∀ m ∈ l, ∃ k, normalizeMessages [m] = .ok k
  | _, [], _, _, _, hm => by cases hm
  | i, x :: l, n, h, m, hm => by
      obtain ⟨x', l', hx, hl, _⟩ := normalizeFrom_cons h
      rcases List.mem_cons.mp hm with rfl | hm
      · exact ⟨[x'], by simp only [normalizeMessages, normalizeFrom, normalizeMessage_index 0 hx]⟩
      · exact normalizeFrom_mem hl m hm

theorem Normalizes.echoes {l : List Fields} (h : Normalizes l) : EchoesNormal l := by
  obtain ⟨n, hn⟩ := h
  exact fun m hm _ => normalizeFrom_mem hn m hm

/-- A prompt is built for accepted messages. -/
theorem buildPrompt_normalizes {m : TokenStreamManager} {sid : Option String}
    {messages : List Fields} {tools : Json} {effort : Option String} {ids : List Int}
    (h : (m.buildPrompt c sid messages tools effort).1 = .ok ids) : Normalizes messages := by
  unfold TokenStreamManager.buildPrompt at h
  cases sid with
  | none => simp at h
  | some sid =>
      simp only at h
      split at h
      · simp at h
      · simp at h
      · next n hn _ => exact ⟨n, hn⟩

theorem repairsFailure_ok {d : Delivery} (h : Normalizes d.messages) (failed : Option FailedTurn)
    (recorded : Nat) : ∃ b, repairsFailure failed recorded d = .ok b := by
  obtain ⟨n, hn⟩ := h
  unfold repairsFailure normalizesTo
  rw [hn]
  cases failed with
  | none => exact ⟨_, rfl⟩
  | some f =>
      simp only
      split
      · exact ⟨_, rfl⟩
      · exact ⟨_, rfl⟩

theorem build_alike {x x' : StreamRun} {r r' : PromptRequest} (h : Alike c session agent x x')
    (ha : StreamCall.Alike c (.build r) (.build r')) (hk : x.Keeps c session agent (.build r))
    (hk' : x'.Keeps c session agent (.build r')) :
    Alike c session agent (x.build c session agent r) (x'.build c session agent r') := by
  obtain ⟨hm, ht, he⟩ := ha
  obtain ⟨hans, hman⟩ := TokenStreamManager.buildPrompt_agree h.manager hm hk hk' r.tools r.effort
  rw [ht, he] at hans hman
  refine ⟨by unfold StreamRun.build; rw [ht, he]; exact hman, h.deleted, h.turns, ?_, h.served⟩
  unfold StreamRun.build StreamRun.answer
  simp only
  rw [ht, he]
  cases hb : (x.manager.buildPrompt c (some (streamId session agent)) r.messages r'.tools
      r'.effort).1 with
  | error e =>
      rw [hb] at hans
      rw [← hans]
      exact trivial
  | ok ids =>
      rw [hb] at hans
      rw [← hans]
      exact ⟨⟨hm, ht, he, buildPrompt_normalizes hb, buildPrompt_normalizes hans.symm⟩, rfl⟩

/-- The state a commit publishes is seen alike in both runs. -/
theorem committedState_seen {m m' : TokenStreamManager} (h : m.seen c = m'.seen c)
    {n n' : List Fields} (hn : Agree n n') (ids : List Int) (o : EngineOutput) (tools : Json)
    (effort : Option String) :
    (m.committedState n ids o.completionIds o.logProbs o.finishReason o.engineMeta tools
        effort).seen c =
      (m'.committedState n' ids o.completionIds o.logProbs o.finishReason o.engineMeta tools
        effort).seen c := by
  have hid := TokenStreamManager.seen_nextId h
  have hl : m.lastTurnOf o.completionIds o.logProbs o.finishReason o.engineMeta tools =
      m'.lastTurnOf o.completionIds o.logProbs o.finishReason o.engineMeta tools := by
    unfold TokenStreamManager.lastTurnOf
    rw [hid]
  unfold TokenStreamManager.committedState SessionState.seen
  rw [hl, show n.map withoutEcho = n'.map withoutEcho from hn]

theorem commitTurn_alike {x x' y y' : StreamRun} {r r' : PromptRequest} {ids : List Int}
    {o : EngineOutput} (h : Alike c session agent x x') (hr : RequestsAlike r r')
    (hy : x.commitTurn c session agent r ids o = some y)
    (hy' : x'.commitTurn c session agent r' ids o = some y') : Alike c session agent y y' := by
  obtain ⟨n, hn⟩ := hr.normal
  obtain ⟨n', hn'⟩ := hr.normal'
  have hnn : Agree n n' := by
    rcases normalizeMessages_agree hr.messages hr.normal.echoes hr.normal'.echoes with
      ⟨e, he, _⟩ | ⟨k, k', hk, hk', hkk⟩
    · rw [hn] at he; cases he
    · rw [hn] at hk
      rw [hn'] at hk'
      cases hk
      cases hk'
      exact hkk
  unfold StreamRun.commitTurn TokenStreamManager.commit at hy hy'
  simp only [hn, Option.some.injEq] at hy
  simp only [hn', Option.some.injEq] at hy'
  subst hy hy'
  refine ⟨?_, h.deleted, h.turns, trivial, ⟨hr, rfl, rfl, rfl⟩⟩
  simp only [TokenStreamManager.publish_seen, h.manager, hr.tools, hr.effort,
    committedState_seen h.manager hnn]

/-! ### Publishing a parsed completion -/

/-- Without a hook nobody sees that a parsed completion is published. -/
theorem publishParsed_seen_none (hc : c.prepareDeltaMessages = none) (m : TokenStreamManager)
    (sid : String) (p : ParsedCompletion) : (m.publishParsed sid p).seen c = m.seen c := by
  unfold TokenStreamManager.publishParsed TokenStreamManager.setParsed
  cases hst : m.sessions.get? sid with
  | none => rfl
  | some st =>
      cases ht : st.lastTurn with
      | none => simp only [Option.bind_some, ht]
      | some turn =>
          simp only [Option.bind_some, ht, if_true]
          split
          · rfl
          · have hseen : (SessionState.seen c
                { st with lastTurn := some { turn with parsedCompletion := some p } }) =
                st.seen c := by
              simp [SessionState.seen, CommittedTurn.seen, ht, hc]
            unfold TokenStreamManager.seen
            simp only [Dict.map_set, hseen]
            rw [Dict.set_get? (by rw [Dict.get?_map, hst]; rfl)]

/-- Under a hook the publication is seen as it is. -/
theorem publishParsed_seen_some (hc : c.prepareDeltaMessages.isSome = true)
    (m : TokenStreamManager) (sid : String) (p : ParsedCompletion) :
    (m.publishParsed sid p).seen c = (m.seen c).publishParsed sid p := by
  have hid : ∀ t : CommittedTurn, t.seen c = t := fun t => by simp [CommittedTurn.seen, hc]
  have hget : (m.seen c).sessions.get? sid = (m.sessions.get? sid).map (·.seen c) :=
    Dict.get?_map _ _ _
  unfold TokenStreamManager.publishParsed TokenStreamManager.setParsed
  rw [hget]
  cases hst : m.sessions.get? sid with
  | none => rfl
  | some st =>
      have hlast : (st.seen c).lastTurn = st.lastTurn := by
        cases ht : st.lastTurn with
        | none => simp [SessionState.seen, ht]
        | some turn => simp [SessionState.seen, ht, hid]
      cases ht : st.lastTurn with
      | none => simp only [Option.bind_some, Option.map_some, hlast, ht]
      | some turn =>
          simp only [Option.bind_some, Option.map_some, hlast, ht, if_true]
          split
          · rfl
          · unfold TokenStreamManager.seen
            simp only [Dict.map_set]
            have hseen : SessionState.seen c
                { st with lastTurn := some { turn with parsedCompletion := some p } } =
                { st.seen c with lastTurn := some { turn with parsedCompletion := some p } } := by
              simp [SessionState.seen, hid]
            rw [hseen]

theorem publishParsed_alike {m m' : TokenStreamManager} (h : m.seen c = m'.seen c) (sid : String)
    {p p' : ParsedCompletion} (hp : c.prepareDeltaMessages = none ∨ p = p') :
    (m.publishParsed sid p).seen c = (m'.publishParsed sid p').seen c := by
  cases hc : c.prepareDeltaMessages with
  | none => rw [publishParsed_seen_none hc, publishParsed_seen_none hc, h]
  | some prepare =>
      have hs : c.prepareDeltaMessages.isSome = true := by rw [hc]; rfl
      rcases hp with hn | rfl
      · rw [hn] at hc; cases hc
      · rw [publishParsed_seen_some hs, publishParsed_seen_some hs, h]

/-! ### Recording -/

theorem tombstoned_congr {r r' : SessionRecorder} (h : r.deleted = r'.deleted) (now : Rat)
    (sid : String) : r.tombstoned now sid = r'.tombstoned now sid := by
  unfold SessionRecorder.tombstoned
  rw [h]

theorem afterPlacement_same {turns turns' : List CompletionRecord} {d d' : Delivery}
    {p p' : Placement} (h : List.Forall₂ SameTurn turns turns') (ht : d.tokenIds = d'.tokenIds)
    (hp : PlacedAlike (.ok p) (.ok p')) :
    List.Forall₂ SameTurn (afterPlacement turns d p) (afterPlacement turns' d' p') := by
  cases p with
  | duplicate =>
      cases p' with
      | duplicate => exact h
      | turn => exact absurd hp (by simp [PlacedAlike])
  | turn new messages ids =>
      cases p' with
      | duplicate => exact absurd hp (by simp [PlacedAlike])
      | turn new' messages' ids' =>
          obtain ⟨hnew, hids, hm, he, he'⟩ := hp
          exact List.rel_append h (.cons ⟨hids, ht, hnew, hm, he, he'⟩ .nil)

/-- A delivery reaches both records or none, and is placed alike. -/
theorem landing_alike {x x' : StreamRun} {s s' : ServedTurn} (h : Alike c session agent x x')
    (hs : ServedAlike s s') (now : Rat) (fields fields' : Delivery) (fault : Option RecordFault) :
    BothOrNone (fun p p' => PlacedAlike (.ok p) (.ok p'))
      (x.landing session agent s now fields fault)
      (x'.landing session agent s' now fields' fault) := by
  have hplace := placeTurn_same h.turns
    (show Agree (s.delivery agent fields).messages (s'.delivery agent fields').messages from
      hs.request.messages)
    hs.request.normal.echoes hs.request.normal'.echoes hs.prompt
    (congrArg EngineOutput.completionIds hs.output)
  unfold StreamRun.turns at hplace
  unfold StreamRun.landing SessionRecorder.landing
  rw [tombstoned_congr h.deleted]
  by_cases hcond : fault = some .early ∨ fault = some .construct ∨
      x'.recorder.tombstoned now session = true
  · rw [if_pos hcond, if_pos hcond]
    exact trivial
  rw [if_neg hcond, if_neg hcond]
  obtain ⟨b, hb⟩ := repairsFailure_ok (d := s.delivery agent fields) hs.request.normal
    (x.recorder.failedTurn session (some agent))
    (x.recorder.recordedTurns session (some agent)).length
  obtain ⟨b', hb'⟩ := repairsFailure_ok (d := s'.delivery agent fields') hs.request.normal'
    (x'.recorder.failedTurn session (some agent))
    (x'.recorder.recordedTurns session (some agent)).length
  rw [show (s.delivery agent fields).agentId = some agent from rfl,
    show (s'.delivery agent fields').agentId = some agent from rfl, hb, hb']
  cases hp : placeTurn (x.recorder.recordedTurns session (some agent))
      (s.delivery agent fields) with
  | error e =>
      cases hp' : placeTurn (x'.recorder.recordedTurns session (some agent))
          (s'.delivery agent fields') with
      | error e' => exact trivial
      | ok p' => rw [hp, hp'] at hplace; exact absurd hplace (by simp [PlacedAlike])
  | ok p =>
      cases hp' : placeTurn (x'.recorder.recordedTurns session (some agent))
          (s'.delivery agent fields') with
      | error e' => rw [hp, hp'] at hplace; cases p <;> exact absurd hplace (by simp [PlacedAlike])
      | ok p' =>
          rw [hp, hp'] at hplace
          exact hplace

/-- The agent's turns behind a recording. -/
theorem turns_record (x : StreamRun) (s : ServedTurn) (now : Rat) (fields : Delivery)
    (fault : Option RecordFault) :
    (x.record session agent s now fields fault).turns session agent =
      match x.landing session agent s now fields fault with
      | none => x.turns session agent
      | some p => afterPlacement (x.turns session agent) (s.delivery agent fields) p := by
  unfold StreamRun.turns StreamRun.record
  simp only
  rw [SessionRecorder.recordCompletion_recordedTurns, if_pos ⟨rfl, rfl⟩]
  rfl

theorem record_alike {x x' : StreamRun} {s s' : ServedTurn} (h : Alike c session agent x x')
    (hs : ServedAlike s s') (now : Rat) (fields fields' : Delivery) (fault : Option RecordFault) :
    Alike c session agent (x.record session agent s now fields fault)
      (x'.record session agent s' now fields' fault) := by
  have hland := landing_alike h hs now fields fields' fault
  have hturns : List.Forall₂ SameTurn
      ((x.record session agent s now fields fault).turns session agent)
      ((x'.record session agent s' now fields' fault).turns session agent) ∧
      (x.landing session agent s now fields fault).isSome =
        (x'.landing session agent s' now fields' fault).isSome := by
    rw [turns_record, turns_record]
    cases hl : x.landing session agent s now fields fault with
    | none =>
        cases hl' : x'.landing session agent s' now fields' fault with
        | none => exact ⟨h.turns, rfl⟩
        | some p' => rw [hl, hl'] at hland; cases hland
    | some p =>
        cases hl' : x'.landing session agent s' now fields' fault with
        | none => rw [hl, hl'] at hland; cases hland
        | some p' =>
            rw [hl, hl'] at hland
            exact ⟨afterPlacement_same h.turns (congrArg EngineOutput.completionIds hs.output) hland,
              rfl⟩
  refine ⟨h.manager, ?_, hturns.1, h.pending, ⟨hs.request, hs.prompt, hs.output, ?_⟩⟩
  · simp only [StreamRun.record, SessionRecorder.recordCompletion_deleted, h.deleted]
  · simp only [hs.recorded, hturns.2]

/-- **Every pair of alike calls keeps the runs alike.** -/
theorem alike_step {x x' y y' : StreamRun} {k k' : StreamCall} (h : Alike c session agent x x')
    (hs : x.step c session agent k = some y) (hs' : x'.step c session agent k' = some y')
    (ha : k.Alike c k') (hk : x.Keeps c session agent k) (hk' : x'.Keeps c session agent k') :
    Alike c session agent y y' := by
  cases k with
  | build r =>
      cases k' with
      | build r' =>
          simp only [StreamRun.step, Option.some.injEq] at hs hs'
          rw [← hs, ← hs']
          exact build_alike h ha hk hk'
      | commit | publish | record => exact absurd ha (by simp [StreamCall.Alike])
  | commit o =>
      cases k' with
      | commit o' =>
          have ho : o = o' := ha
          subst ho
          have hp := h.pending
          simp only [StreamRun.step] at hs hs'
          cases hx : x.pending with
          | none => rw [hx] at hs; cases hs
          | some p =>
              cases hx' : x'.pending with
              | none => rw [hx'] at hs'; cases hs'
              | some p' =>
                  rw [hx, hx'] at hp
                  rw [hx, Option.bind_some] at hs
                  rw [hx', Option.bind_some] at hs'
                  -- both runs commit the build that is pending, of the same prompt
                  obtain ⟨hr, hids⟩ := hp
                  rw [← hids] at hs'
                  exact commitTurn_alike h hr hs hs'
      | build | publish | record => exact absurd ha (by simp [StreamCall.Alike])
  | publish p =>
      cases k' with
      | publish p' =>
          simp only [StreamRun.step, Option.some.injEq] at hs hs'
          rw [← hs, ← hs']
          exact ⟨publishParsed_alike h.manager _ ha, h.deleted, h.turns, h.pending, h.served⟩
      | build | commit | record => exact absurd ha (by simp [StreamCall.Alike])
  | record now fields fault =>
      cases k' with
      | record now' fields' fault' =>
          obtain ⟨rfl, rfl⟩ : now = now' ∧ fault = fault' := ha
          have hserved := h.served
          simp only [StreamRun.step] at hs hs'
          cases hx : x.served with
          | none => rw [hx] at hs; cases hs
          | some s =>
              cases hx' : x'.served with
              | none => rw [hx'] at hs'; cases hs'
              | some s' =>
                  rw [hx, hx'] at hserved
                  rw [hx, Option.map_some, Option.some.injEq] at hs
                  rw [hx', Option.map_some, Option.some.injEq] at hs'
                  rw [← hs, ← hs']
                  exact record_alike h hserved now fields fields' fault
      | build | commit | publish => exact absurd ha (by simp [StreamCall.Alike])

/-! ## 2. A run that records every turn -/

section

variable (session agent)

/-- The prompt opens a conversation, or extends the committed one. -/
def PendingFits (x : StreamRun) (r : PromptRequest) (ids : List Int) : Prop :=
  r.messages.any isAssistant = false ∨
    ∃ st, x.state session agent = some st ∧ st.stream <+: ids ∧
      (nonAssistant st.messages).length < (nonAssistant r.messages).length

/-- The stream's state is the one the served turn committed. -/
structure ServedState (x : StreamRun) (s : ServedTurn) : Prop where
  normal : Normalizes s.request.messages
  state : ∀ st, x.state session agent = some st →
    st.stream = s.promptIds ++ s.output.completionIds ∧
      normalizeMessages s.request.messages = .ok st.messages

/-- The agent's turns are in step with the turn served last, and none stores an echo. -/
structure InStep (x : StreamRun) : Prop where
  noEcho : ∀ t ∈ x.turns session agent, t.requestMessages.any isAssistant = false
  unserved : x.served = none → x.state session agent = none
  served : ∀ s, x.served = some s → ServedState session agent x s
  mirrors : ∀ s, x.served = some s → s.recorded = true →
    Mirrors (x.turns session agent) s.request.messages s.promptIds s.output.completionIds
  ready : ∀ s, x.served = some s →
    Ready (x.turns session agent) s.request.messages s.promptIds ∨
      Mirrors (x.turns session agent) s.request.messages s.promptIds s.output.completionIds
  pending : ∀ p, x.pending = some p →
    PendingFits session agent x p.1 p.2

end

theorem nonAssistant_length {l n : List Fields} (h : normalizeMessages l = .ok n) :
    (nonAssistant n).length = (nonAssistant l).length := by
  have := normalizeMessages_countP h
  rw [List.countP_eq_length_filter, List.countP_eq_length_filter] at this
  exact this

/-- What is built for a request fits the stream. -/
theorem build_fits {x : StreamRun} {r : PromptRequest} {ids : List Int}
    (hn : ∀ st, x.state session agent = some st → Normal st.messages)
    (h : x.answer c session agent r = .ok ids) :
    PendingFits session agent x r ids := by
  obtain ⟨normalized, hm, _, ⟨ho, _⟩ | ⟨st, hst, _, hp⟩⟩ := TokenStreamManager.buildPrompt_ok h
  · exact .inl ho
  · obtain ⟨echo, new, hext⟩ := hp.extends (hn st hst)
    obtain ⟨delta, _, rfl⟩ := hp.delta
    refine .inr ⟨st, hst, List.prefix_append _ _, ?_⟩
    have hcount := hext.count
    rw [List.countP_eq_length_filter, List.countP_eq_length_filter] at hcount
    have hpos := List.length_pos_of_ne_nil hext.nonempty
    rw [← nonAssistant_length hm]
    unfold nonAssistant
    omega

theorem InStep.normal {x : StreamRun} (h : InStep session agent x)
    {st : SessionState} (hst : x.state session agent = some st) : Normal st.messages := by
  cases hs : x.served with
  | none => rw [h.unserved hs] at hst; cases hst
  | some s => exact normalizeMessages_normal ((h.served s hs).state st hst).2

theorem inStep_build {x : StreamRun} {r : PromptRequest}
    (h : InStep session agent x) :
    InStep session agent (x.build c session agent r) := by
  have hstate : (x.build c session agent r).state session agent = x.state session agent :=
    TokenStreamManager.buildPrompt_get? c x.manager _ _ _ _ _
  refine ⟨h.noEcho, fun hs => hstate.trans (h.unserved hs), fun s hs => ?_, h.mirrors, h.ready,
    fun p hp => ?_⟩
  · exact ⟨(h.served s hs).normal, fun st hst => (h.served s hs).state st (hstate ▸ hst)⟩
  · cases hb : x.answer c session agent r with
    | error e => simp [StreamRun.build, hb, Except.toOption] at hp
    | ok ids =>
        simp only [StreamRun.build, hb, Except.toOption, Option.map_some, Option.some.injEq] at hp
        subst hp
        rcases build_fits (fun st => h.normal) hb with ho | ⟨st, hst, hpre, hlt⟩
        · exact .inl ho
        · exact .inr ⟨st, hstate.trans hst, hpre, hlt⟩

/-- The committed turn is ready to be recorded behind the recorded one. -/
theorem ready_of_fits {x : StreamRun} (h : InStep session agent x)
    (hrec : ∀ s, x.served = some s → s.recorded = true) {r : PromptRequest} {ids : List Int}
    (hp : PendingFits session agent x r ids) :
    Ready (x.turns session agent) r.messages ids := by
  rcases hp with ho | ⟨st, hst, hpre, hlt⟩
  · exact .inl ho
  · cases hs : x.served with
    | none => rw [h.unserved hs] at hst; cases hst
    | some s =>
        obtain ⟨hstream, hmsgs⟩ := (h.served s hs).state st hst
        have hm := h.mirrors s hs (hrec s hs)
        refine .inr ⟨?_, ?_, ?_⟩
        · intro hnil
          obtain ⟨t, ht, _⟩ := hm.last
          rw [hnil] at ht
          cases ht
        · rw [hm.stream, ← hstream]
          exact hpre
        · rw [hm.messages, ← nonAssistant_length hmsgs]
          exact hlt

theorem inStep_commit {x y : StreamRun} {r : PromptRequest} {ids : List Int} {o : EngineOutput}
    (h : InStep session agent x)
    (hrec : ∀ s, x.served = some s → s.recorded = true)
    (hp : PendingFits session agent x r ids)
    (hy : x.commitTurn c session agent r ids o = some y) :
    InStep session agent y := by
  unfold StreamRun.commitTurn TokenStreamManager.commit at hy
  cases hn : normalizeMessages r.messages with
  | error e => rw [hn] at hy; cases hy
  | ok n =>
      simp only [hn, Option.some.injEq] at hy
      subst hy
      refine ⟨h.noEcho, ?_, ?_, ?_, ?_, ?_⟩
      · rintro ⟨⟩
      · intro s hs
        simp only [Option.some.injEq] at hs
        subst hs
        refine ⟨⟨n, hn⟩, fun st hst => ?_⟩
        rcases TokenStreamManager.publish_get?_cases _ _ hst with ⟨_, rfl⟩ | ⟨hk, _⟩
        · exact ⟨rfl, hn⟩
        · exact absurd rfl hk
      · intro s hs hr
        simp only [Option.some.injEq] at hs
        subst hs
        cases hr
      · intro s hs
        simp only [Option.some.injEq] at hs
        subst hs
        exact .inl (ready_of_fits h hrec hp)
      · rintro _ ⟨⟩

/-- Publishing leaves every stream and its messages. -/
theorem publishParsed_get? (m : TokenStreamManager) (sid k : String) (p : ParsedCompletion) :
    ((m.publishParsed sid p).sessions.get? k).map (fun st => (st.stream, st.messages)) =
      (m.sessions.get? k).map fun st => (st.stream, st.messages) := by
  unfold TokenStreamManager.publishParsed TokenStreamManager.setParsed
  cases hst : m.sessions.get? sid with
  | none => rfl
  | some st =>
      cases ht : st.lastTurn with
      | none => simp only [Option.bind_some, ht]
      | some turn =>
          simp only [Option.bind_some, ht, if_true]
          split
          · rfl
          · simp only [Dict.get?_set]
            split
            · next hk => rw [hk, hst]; rfl
            · rfl

theorem publishParsed_some {m : TokenStreamManager} {sid k : String} {p : ParsedCompletion}
    {st : SessionState} (h : (m.publishParsed sid p).sessions.get? k = some st) :
    ∃ st', m.sessions.get? k = some st' ∧ st'.stream = st.stream ∧ st'.messages = st.messages := by
  have hv := publishParsed_get? m sid k p
  rw [h, Option.map_some] at hv
  obtain ⟨st', hst', he⟩ := Option.map_eq_some_iff.mp hv.symm
  exact ⟨st', hst', (Prod.mk.inj he).1, (Prod.mk.inj he).2⟩

theorem some_publishParsed {m : TokenStreamManager} (sid : String) {k : String}
    (p : ParsedCompletion) {st : SessionState} (h : m.sessions.get? k = some st) :
    ∃ st', (m.publishParsed sid p).sessions.get? k = some st' ∧ st'.stream = st.stream ∧
      st'.messages = st.messages := by
  have hv := publishParsed_get? m sid k p
  rw [h, Option.map_some] at hv
  obtain ⟨st', hst', he⟩ := Option.map_eq_some_iff.mp hv
  exact ⟨st', hst', (Prod.mk.inj he).1, (Prod.mk.inj he).2⟩

theorem inStep_publish {x : StreamRun} (p : ParsedCompletion)
    (h : InStep session agent x) :
    InStep session agent
      { x with manager := x.manager.publishParsed (streamId session agent) p } := by
  refine ⟨h.noEcho, fun hs => ?_, fun s hs => ?_, h.mirrors, h.ready, fun q hq => ?_⟩
  · cases hst : (x.manager.publishParsed (streamId session agent) p).sessions.get?
        (streamId session agent) with
    | none => exact hst
    | some st =>
        obtain ⟨st', hst', _⟩ := publishParsed_some hst
        have hnone := h.unserved hs
        unfold StreamRun.state at hnone
        rw [hst'] at hnone
        cases hnone
  · refine ⟨(h.served s hs).normal, fun st hst => ?_⟩
    obtain ⟨st', hst', hstream, hmsgs⟩ := publishParsed_some hst
    obtain ⟨e, e'⟩ := (h.served s hs).state st' hst'
    exact ⟨hstream ▸ e, hmsgs ▸ e'⟩
  · rcases h.pending q hq with ho | ⟨st, hst, hpre, hlt⟩
    · exact .inl ho
    · obtain ⟨st', hst', hstream, hmsgs⟩ := some_publishParsed (streamId session agent) p hst
      exact .inr ⟨st', hst', hstream ▸ hpre, hmsgs ▸ hlt⟩

/-- A recording puts the turns in step with the turn it delivers. -/
theorem inStep_record {x : StreamRun} {s : ServedTurn}
    (h : InStep session agent x) (hs : x.served = some s) (now : Rat)
    (fields : Delivery) (fault : Option RecordFault) :
    InStep session agent (x.record session agent s now fields fault) := by
  have hplaced : ∀ p, x.landing session agent s now fields fault = some p →
      Placed (x.turns session agent) (s.delivery agent fields) p := by
    intro p hp
    unfold StreamRun.landing SessionRecorder.landing at hp
    split at hp
    · cases hp
    · split at hp
      · next hplace =>
        cases hp
        exact placeTurn_placed (h.ready s hs) hplace
      · cases hp
  have hserved : ∀ s', (x.record session agent s now fields fault).served = some s' →
      s'.request = s.request ∧ s'.promptIds = s.promptIds ∧ s'.output = s.output ∧
        s'.recorded = (s.recorded || (x.landing session agent s now fields fault).isSome) := by
    intro s' hs'
    cases hs'
    exact ⟨rfl, rfl, rfl, rfl⟩
  -- a delivery that lands is the last turn of the record
  have hmirrors : ∀ p, x.landing session agent s now fields fault = some p →
      Mirrors ((x.record session agent s now fields fault).turns session agent) s.request.messages
        s.promptIds s.output.completionIds := by
    intro p hp
    rw [turns_record, hp]
    exact (hplaced p hp).mirrors
  refine ⟨?_, nofun, fun s' hs' => ?_, fun s' hs' hr => ?_, fun s' hs' => ?_, h.pending⟩
  · rw [turns_record]
    cases hl : x.landing session agent s now fields fault with
    | none => exact h.noEcho
    | some p =>
        intro t ht
        cases p with
        | duplicate => exact h.noEcho t ht
        | turn new messages ids =>
            rcases List.mem_append.mp ht with ht | ht
            · exact h.noEcho t ht
            · rw [List.mem_singleton.mp ht]
              exact (hplaced _ hl).noEcho new messages ids rfl
  · obtain ⟨e₁, e₂, e₃, _⟩ := hserved s' hs'
    refine ⟨e₁ ▸ (h.served s hs).normal, ?_⟩
    rw [e₁, e₂, e₃]
    exact (h.served s hs).state
  · obtain ⟨e₁, e₂, e₃, e₄⟩ := hserved s' hs'
    rw [e₁, e₂, e₃]
    cases hl : x.landing session agent s now fields fault with
    | none =>
        rw [e₄, hl, Option.isSome_none, Bool.or_false] at hr
        rw [turns_record, hl]
        exact h.mirrors s hs hr
    | some p => exact hmirrors p hl
  · obtain ⟨e₁, e₂, e₃, _⟩ := hserved s' hs'
    rw [e₁, e₂, e₃]
    cases hl : x.landing session agent s now fields fault with
    | none =>
        rw [turns_record, hl]
        exact h.ready s hs
    | some p => exact .inr (hmirrors p hl)

/-- **Every call of a run that records each turn keeps it in step.** -/
theorem inStep_step {x y : StreamRun} {k : StreamCall}
    (h : InStep session agent x) (hs : x.step c session agent k = some y)
    (hrec : x.Recorded k) : InStep session agent y := by
  cases k with
  | build r =>
      simp only [StreamRun.step, Option.some.injEq] at hs
      rw [← hs]
      exact inStep_build h
  | commit o =>
      simp only [StreamRun.step] at hs
      cases hx : x.pending with
      | none => rw [hx] at hs; cases hs
      | some p =>
          rw [hx, Option.bind_some] at hs
          exact inStep_commit h hrec (h.pending p hx) hs
  | publish p =>
      simp only [StreamRun.step, Option.some.injEq] at hs
      rw [← hs]
      exact inStep_publish p h
  | record now fields fault =>
      simp only [StreamRun.step] at hs
      cases hx : x.served with
      | none => rw [hx] at hs; cases hs
      | some s =>
          rw [hx, Option.map_some, Option.some.injEq] at hs
          rw [← hs]
          exact inStep_record h hx now fields fault

/-! ## 3. The theorem -/

theorem BothOrNone.none {α β : Type} {R : α → β → Prop} {o : Option α} {o' : Option β}
    (h : o = Option.none) (h' : o' = Option.none) : BothOrNone R o o' := by
  rw [h, h']
  exact trivial

/-- Both runs start from one state. -/
theorem alike_start {x : StreamRun} (h : x.Fresh session agent) : Alike c session agent x x where
  manager := rfl
  deleted := rfl
  turns := by rw [h.turns]; exact .nil
  pending := .none h.pending h.pending
  served := .none h.served h.served

theorem inStep_start {x : StreamRun} (h : x.Fresh session agent) :
    InStep session agent x where
  noEcho := by rw [h.turns]; simp
  unserved := fun _ => h.state
  served := fun s hs => by rw [h.served] at hs; cases hs
  mirrors := fun s hs => by rw [h.served] at hs; cases hs
  ready := fun s hs => by rw [h.served] at hs; cases hs
  pending := fun p hp => by rw [h.pending] at hp; cases hp

theorem pairStep_some {x y : StreamRun × StreamRun} {k : StreamCall × StreamCall}
    (h : pairStep c session agent x k = some y) :
    x.1.step c session agent k.1 = some y.1 ∧ x.2.step c session agent k.2 = some y.2 := by
  unfold pairStep at h
  split at h
  · next y₁ y₂ h₁ h₂ =>
    cases h
    exact ⟨h₁, h₂⟩
  · cases h

theorem alike_of_runs {x₀ : StreamRun} {x : StreamRun × StreamRun} (h0 : x₀.Fresh session agent)
    (h : Steps (pairStep c session agent) (EchoRuns c session agent) (x₀, x₀) x) :
    Alike c session agent x.1 x.2 := by
  refine h.inv (I := fun x => Alike c session agent x.1 x.2) (alike_start h0) ?_
  rintro y k z hi hs ⟨ha, hk, hk'⟩
  obtain ⟨h₁, h₂⟩ := pairStep_some hs
  exact alike_step hi h₁ h₂ ha hk hk'

/-- What two alike runs recorded: the same deltas and completions, for the same new messages. -/
theorem recorded_alike {turns turns' : List CompletionRecord}
    (h : List.Forall₂ SameTurn turns turns') :
    turns.map CompletionRecord.promptTokenIds = turns'.map CompletionRecord.promptTokenIds ∧
      turns.map CompletionRecord.completionTokenIds =
        turns'.map CompletionRecord.completionTokenIds ∧
      List.Forall₂ Agree (turns.map CompletionRecord.requestMessages)
        (turns'.map CompletionRecord.requestMessages) := by
  induction h with
  | nil => exact ⟨rfl, rfl, .nil⟩
  | cons ht _ ih =>
      simp only [List.map_cons, ht.prompt, ht.completion, ih.1, ih.2.1, true_and]
      exact .cons ht.messages ih.2.2

theorem requestMessages_eq {turns turns' : List CompletionRecord}
    (h : List.Forall₂ SameTurn turns turns')
    (hno : ∀ t ∈ turns, t.requestMessages.any isAssistant = false) :
    turns.map CompletionRecord.requestMessages =
      turns'.map CompletionRecord.requestMessages := by
  induction h with
  | nil => rfl
  | @cons t t' ts ts' ht _ ih =>
      simp only [List.map_cons, ht.messages.eq_of_no_assistant (hno t (by simp)),
        ih fun u hu => hno u (by simp [hu])]

/-- **The assistant echo cannot influence the token stream.** Two runs on one stream with the same
    engine outputs, tools and efforts, whose requests differ in their echoes only: the next
    `build_prompt` answers both alike, the hook is shown the same messages, the committed streams
    are equal, and so are the recorded deltas; the stored requests agree on every non-assistant
    message, and are equal where every turn was recorded before the next commit. -/
theorem echo_insensitive {x₀ : StreamRun} {x : StreamRun × StreamRun}
    (h0 : x₀.Fresh session agent)
    (h : Steps (pairStep c session agent) (EchoRuns c session agent) (x₀, x₀) x) :
    (∀ r r' : PromptRequest, EchoRuns c session agent x (.build r, .build r') x →
      x.1.answer c session agent r = x.2.answer c session agent r') ∧
    (∀ st st', x.1.state session agent = some st → x.2.state session agent = some st' →
      c.prepareDeltaMessages = none ∨ ParsedCached st → ∀ echo echo' new,
        c.preparedMessages st echo new = c.preparedMessages st' echo' new) ∧
    (x.1.state session agent).map (·.stream) = (x.2.state session agent).map (·.stream) ∧
    (x.1.turns session agent).map CompletionRecord.promptTokenIds =
      (x.2.turns session agent).map CompletionRecord.promptTokenIds ∧
    List.Forall₂ Agree ((x.1.turns session agent).map CompletionRecord.requestMessages)
      ((x.2.turns session agent).map CompletionRecord.requestMessages) ∧
    (Steps (pairStep c session agent)
        (fun y k z => EchoRuns c session agent y k z ∧ y.1.Recorded k.1) (x₀, x₀) x →
      (x.1.turns session agent).map CompletionRecord.requestMessages =
        (x.2.turns session agent).map CompletionRecord.requestMessages) := by
  have hi := alike_of_runs h0 h
  have hrec := recorded_alike hi.turns
  have hget := TokenStreamManager.seen_get? hi.manager (streamId session agent)
  refine ⟨?_, ?_, ?_, hrec.1, hrec.2.2, fun hr => ?_⟩
  · rintro r r' ⟨⟨hm, ht, he⟩, hk, hk'⟩
    unfold StreamRun.answer
    rw [ht, he]
    exact (TokenStreamManager.buildPrompt_agree hi.manager hm hk hk' _ _).1
  · intro st st' hst hst' hcached echo echo' new
    unfold StreamRun.state at hst hst'
    rw [hst, hst'] at hget
    exact preparedMessages_agree (Option.some.inj hget) hcached echo echo' new
  · have := congrArg (Option.map SessionState.stream) hget
    rw [Option.map_map, Option.map_map] at this
    exact this
  · have hin : InStep session agent x.1 := by
      refine hr.inv (I := fun x => InStep session agent x.1)
        (inStep_start h0) ?_
      rintro y k z hy hs ⟨_, hrec⟩
      exact inStep_step hy (pairStep_some hs).1 hrec
    exact requestMessages_eq hi.turns hin.noEcho

end Runs

/-! ## 4. A forged echo -/

/-- A template that shows of a tool result how long its speaker's name is. -/
def speakerTokenizer : Tokenizer where
  applyChatTemplate ms _ _ := .ok (.arr (ms.map fun m =>
    match Fields.get m "name" with
    | .str name => .int (10 + name.length)
    | _ => .int 2))
  renderText _ := .ok ""
  encode text := .ok (.arr ((if text = "<|start|>assistant" then [1]
    else if text = "<|end|>" then [5] else []).map .int))
  decode _ := .ok ""

def speakerConfig : ManagerConfig := GptOss.managerConfig speakerTokenizer

/-- A served call of `look`. -/
def lookCall : ParsedCompletion := ⟨some "", some [⟨"call_1", "look", "{}"⟩], "tool_calls", none⟩

def sampledOutput : EngineOutput := ⟨[3, 5], some [.finite 0, .finite 0], some "stop", .empty⟩

def freshRun : StreamRun := ⟨.empty, .empty, none, none⟩

def questionRequest : PromptRequest :=
  ⟨[[("role", .str "user"), ("content", .str "q")]], .null, none⟩

/-- The next request: an echo, and the result of the call. -/
def resultRequest (echo : Fields) : PromptRequest :=
  ⟨questionRequest.messages ++ [echo,
    [("role", .str "tool"), ("tool_call_id", .str "call_1"), ("content", .str "r")]], .null, none⟩

def plainEcho : Fields := [("role", .str "assistant"), ("content", .str "")]

/-- An echo that claims another function was called. -/
def forgedEcho : Fields :=
  [("role", .str "assistant"), ("content", .str "forged"), ("tool_calls", .arr [.obj [
    ("id", .str "call_1"), ("function", .obj [("name", .str "delete")])]])]

theorem freshRun_fresh : freshRun.Fresh "s" "a" := ⟨rfl, rfl, rfl, rfl⟩

/-- The first request owes nothing to a stream that is not there. -/
theorem keeps_question (c : ManagerConfig) {x : StreamRun} (h : x.state "s" "a" = none) :
    x.Keeps c "s" "a" (.build questionRequest) where
  normal := .of_no_assistant rfl
  repeats := fun st hst => by rw [h] at hst; cases hst
  cached := .inr fun st hst => by rw [h] at hst; cases hst

/-- The second request owes the stream an accepted echo and a cached response. -/
theorem keeps_result {c : ManagerConfig} {x : StreamRun} {echo : Fields}
    (hecho : ∃ n, normalizeMessages [echo] = .ok n)
    (hmsgs : (x.state "s" "a").map (·.messages) = some questionRequest.messages)
    (hparsed : c.prepareDeltaMessages = none ∨ (x.state "s" "a").map
      (fun st => (st.lastTurn.bind (·.parsedCompletion)).isSome) = some true) :
    x.Keeps c "s" "a" (.build (resultRequest echo)) where
  normal := by
    intro m hm ha
    simp only [resultRequest, questionRequest, List.cons_append, List.nil_append,
      List.mem_cons, List.not_mem_nil, or_false] at hm
    rcases hm with rfl | rfl | rfl
    · cases ha
    · exact hecho
    · cases ha
  repeats := by
    intro st hst n _ pc hpc ha _
    rw [hst, Option.map_some, Option.some.injEq] at hmsgs
    rw [hmsgs] at hpc
    have hmem := (List.of_mem_zip hpc).1
    rw [List.mem_singleton.mp hmem] at ha
    cases ha
  cached := hparsed.imp id fun h st hst _ => by
    rw [hst, Option.map_some, Option.some.injEq, Option.isSome_iff_exists] at h
    obtain ⟨p, hp⟩ := h
    obtain ⟨turn, ht, hp⟩ := Option.bind_eq_some_iff.mp hp
    exact ⟨turn, p, ht, hp⟩

/-- The runs with a plain and a forged echo of the served call. -/
theorem echo_insensitive_forged : ∃ x : StreamRun × StreamRun,
    (x.1.state "s" "a").map (·.stream) = some [2, 1, 3, 5, 14, 1, 3, 5] ∧
      (x.1.state "s" "a").map (·.stream) = (x.2.state "s" "a").map (·.stream) := by
  have hstep := @Steps.tail _ _ (pairStep speakerConfig "s" "a") (EchoRuns speakerConfig "s" "a")
    (freshRun, freshRun)
  have h₁ := hstep (.build questionRequest, .build questionRequest) (.start _) rfl
    ⟨⟨rfl, rfl, rfl⟩, keeps_question _ rfl, keeps_question _ rfl⟩
  have h₂ := hstep (.commit sampledOutput, .commit sampledOutput) h₁ rfl ⟨rfl, trivial, trivial⟩
  have h₃ := hstep (.publish lookCall, .publish lookCall) h₂ rfl ⟨.inr rfl, trivial, trivial⟩
  have h₄ := hstep (.build (resultRequest plainEcho), .build (resultRequest forgedEcho)) h₃ rfl
    ⟨⟨rfl, rfl, rfl⟩, keeps_result ⟨_, rfl⟩ rfl (.inr rfl), keeps_result ⟨_, rfl⟩ rfl (.inr rfl)⟩
  have h₅ := hstep (.commit sampledOutput, .commit sampledOutput) h₄ rfl ⟨rfl, trivial, trivial⟩
  exact ⟨_, rfl, (echo_insensitive freshRun_fresh h₅).2.2.1⟩

/-- The parsed fields of a turn. -/
def sampledFields : Delivery where
  messages := []
  completionText := "text"
  tokenIds := []
  logprobs := [.finite 0, .finite 0]
  finishReason := some "stop"
  promptTokenIds := []
  agentId := none
  content := some "text"
  reasoningContent := none
  toolCalls := none
  weightVersion := none
  routedExperts := .absent
  samplingParams := none

/-- **Behind a turn whose recording failed the request is stored in full, echo and all**: the
    stored request messages of two such runs differ. -/
theorem stored_request_differs :
    ¬ ∀ (c : ManagerConfig) (session agent : String) (x₀ : StreamRun)
      (x : StreamRun × StreamRun), x₀.Fresh session agent →
      Steps (pairStep c session agent) (EchoRuns c session agent) (x₀, x₀) x →
      (x.1.turns session agent).map CompletionRecord.requestMessages =
        (x.2.turns session agent).map CompletionRecord.requestMessages := by
  intro hall
  have hstep := @Steps.tail _ _ (pairStep (.default speakerTokenizer) "s" "a")
    (EchoRuns (.default speakerTokenizer) "s" "a") (freshRun, freshRun)
  have h₁ := hstep (.build questionRequest, .build questionRequest) (.start _) rfl
    ⟨⟨rfl, rfl, rfl⟩, keeps_question _ rfl, keeps_question _ rfl⟩
  have h₂ := hstep (.commit sampledOutput, .commit sampledOutput) h₁ rfl ⟨rfl, trivial, trivial⟩
  have h₃ := hstep (.record 0 sampledFields (some .early), .record 0 sampledFields (some .early))
    h₂ rfl ⟨⟨rfl, rfl⟩, trivial, trivial⟩
  have h₄ := hstep (.build (resultRequest plainEcho), .build (resultRequest forgedEcho)) h₃ rfl
    ⟨⟨rfl, rfl, rfl⟩, keeps_result ⟨_, rfl⟩ rfl (.inl rfl), keeps_result ⟨_, rfl⟩ rfl (.inl rfl)⟩
  have h₅ := hstep (.commit sampledOutput, .commit sampledOutput) h₄ rfl ⟨rfl, trivial, trivial⟩
  have h₆ := hstep (.record 0 sampledFields none, .record 0 sampledFields none) h₅ rfl
    ⟨⟨rfl, rfl⟩, trivial, trivial⟩
  have he := congrArg (fun l : List (List Fields) => l.map (List.map fun m : Fields => m.length))
    (hall _ "s" "a" freshRun _ freshRun_fresh h₆)
  exact absurd he (by decide +kernel)

end RolloutProxy
