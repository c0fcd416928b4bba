/-
  File:      RolloutProxy/Recorder/Redelivery.lean
  Subject:   A TURN THAT IS DELIVERED AGAIN changes nothing, however its first delivery was stored.

  * A stored turn counts what its own re-delivery is compared with (`placeTurn_repeated`): in full or
    as a delta, the extent of the conversation is the delivery's.
  * Whatever other agents deliver in between, the agent's turns stay as they are
    (`redelivery_idempotent`).
-/
import RolloutProxy.Recorder.Atomic

namespace RolloutProxy

/-! ## 1. Messages are equal to themselves -/

open Json in
/-- A normalized message is a dict. -/
theorem normalizeMessage_keysOnce {i : Nat} {m m' : Fields} (h : normalizeMessage i m = .ok m')
    (hm : KeysOnce (.obj m)) : KeysOnce (.obj m') := by
  have hset : ∀ {x : Fields} {s : String}, KeysOnce (.obj x) →
      KeysOnce (.obj (x.set "content" (.str s))) := fun {x s} hx => by
    have hs : KeysOnce (.str s) := trivial
    exact ⟨set_nodup hx.1, keysOnceFields_set hs hx.2⟩
  have hfill : ∀ {x : Fields}, KeysOnce (.obj x) → KeysOnce (.obj (fillToolCallContent x)) :=
    fun {x} hx => by
      unfold fillToolCallContent
      split
      · exact hset hx
      · exact hx
  unfold normalizeMessage at h
  split at h
  · split at h
    · cases h
      exact hfill hm
    · cases h
      exact hfill hm
    · split at h
      · cases h
        exact hfill (hset hm)
      · cases h
    · cases h
  · cases h

/-- The messages of a list are dicts. -/
def Dicts (messages : List Fields) : Prop := ∀ m ∈ messages, Json.KeysOnce (.obj m)

theorem normalizeFrom_dicts : ∀ {i : Nat} {ms out : List Fields}, normalizeFrom i ms = .ok out →
    Dicts ms → Dicts out
  | _, [], out, h, _ => by
      cases h
      exact fun m hm => absurd hm List.not_mem_nil
  | i, m :: ms, out, h, hd => by
      obtain ⟨m', ms', hm, hms, rfl⟩ := normalizeFrom_cons h
      obtain ⟨hhead, htail⟩ := List.forall_mem_cons.mp hd
      exact List.forall_mem_cons.mpr
        ⟨normalizeMessage_keysOnce hm hhead, normalizeFrom_dicts hms htail⟩

theorem sameMessages_self {l : List Fields} (h : Dicts l) : sameMessages l l = true := by
  refine Json.pyEqItems_self (l.map .obj) ?_
  induction l with
  | nil => trivial
  | cons m l ih =>
    obtain ⟨hm, hl⟩ := List.forall_mem_cons.mp h
    exact ⟨hm, ih hl⟩

/-- **Messages normalize like themselves**, where they normalize. -/
theorem normalizeAlike_self {l : List Fields} (h : Dicts l) {same : Bool}
    (hs : normalizeAlike l l = .ok same) : same = true := by
  unfold normalizeAlike at hs
  cases hn : normalizeMessages l with
  | error e =>
    rw [hn] at hs
    cases e <;> cases hs
  | ok n =>
    rw [hn] at hs
    simp only [sameMessages_self (normalizeFrom_dicts hn h), Except.ok.injEq] at hs
    exact hs.symm

/-! ## 2. The placement of a turn that was placed -/

/-- No placement of the delivery appends a turn: it is a duplicate, or it is refused. -/
def Repeated (turns : List CompletionRecord) (d : Delivery) : Prop :=
  ∀ p, placeTurn turns d = .ok p → p = .duplicate

/-- A turn that is stored in full counts its own delivery. -/
theorem counted_full (turns : List CompletionRecord) (d : Delivery) :
    Counted (turns ++ [d.toRecord true d.messages d.promptTokenIds]) d :=
  (mirrors_full turns d).counted

/-- A delta counts the delivery it was cut from, whatever the prompt repeats of the stream. -/
theorem counted_delta {turns : List CompletionRecord} {d : Delivery}
    (hm : (recordedMessages turns).length ≤ (nonAssistant d.messages).length)
    (hs : (recordedStream turns).length ≤ d.promptTokenIds.length) :
    Counted (turns ++ [d.toRecord false
      ((nonAssistant d.messages).drop (recordedMessages turns).length)
      (d.promptTokenIds.drop (recordedStream turns).length)]) d where
  stream := by
    rw [recordedStream_append]
    simp only [Delivery.toRecord, Bool.false_eq_true, if_false, CompletionRecord.tokens,
      List.length_append, List.length_drop]
    omega
  messages := by
    rw [recordedMessages_append]
    simp only [Delivery.toRecord, Bool.false_eq_true, if_false, List.length_append,
      nonAssistant_eq_self (drop_no_assistant (nonAssistant_no_assistant _) _), List.length_drop]
    omega
  last := ⟨_, List.getLast?_concat, rfl⟩

/-- A continuation that is counted is repeated. -/
theorem Counted.repeated {turns : List CompletionRecord} {d : Delivery} (h : Counted turns d)
    (ha : d.messages.any isAssistant = true) : Repeated turns d := by
  intro p hp
  obtain ⟨last, hlast, -⟩ := h.last
  unfold placeTurn at hp
  rw [if_pos ha, hlast] at hp
  simp only [Except.ok.injEq] at hp
  rw [← hp, h.duplicate hlast]

/-- An opening that is stored in full is repeated: its messages normalize like themselves. -/
theorem opening_repeated {turns : List CompletionRecord} {d : Delivery} (hd : Dicts d.messages)
    (ha : ¬ d.messages.any isAssistant = true) :
    Repeated (turns ++ [d.toRecord true d.messages d.promptTokenIds]) d := by
  intro p hp
  unfold placeTurn at hp
  rw [if_neg ha, List.getLast?_concat] at hp
  simp only [placeOpening, Delivery.toRecord, if_true] at hp
  obtain ⟨same, hsame, hp⟩ := bind_ok hp
  rw [normalizeAlike_self hd hsame] at hp
  simp only [and_self, if_true] at hp
  cases hp
  rfl

/-- **What was placed is repeated**, whatever form it was stored in. -/
theorem placeTurn_repeated {turns : List CompletionRecord} {d : Delivery} {p : Placement}
    (hd : Dicts d.messages) (hp : placeTurn turns d = .ok p) :
    Repeated (afterPlacement turns d p) d := by
  have hsame : p = .duplicate → Repeated (afterPlacement turns d p) d := by
    rintro rfl p' hp'
    rw [afterPlacement, hp] at hp'
    exact (Except.ok.inj hp').symm
  -- a turn is stored in full, or as the delta behind its agent's stream
  by_cases ha : d.messages.any isAssistant = true
  · have hfull := (counted_full turns d).repeated ha
    have hplaced := hp
    unfold placeTurn at hplaced
    rw [if_pos ha] at hplaced
    split at hplaced
    · cases hplaced
      exact hfull
    · next last hlast =>
      obtain rfl := Except.ok.inj hplaced
      clear hplaced hp
      revert hsame
      unfold placeContinuation
      rw [conversationExtent_eq]
      simp only
      split
      · exact fun hsame => hsame rfl
      · split
        · exact fun _ => hfull
        · next hlong =>
          obtain ⟨hm, hs⟩ := not_or.mp hlong
          exact fun _ => (counted_delta (not_lt.mp hm) (not_lt.mp hs)).repeated ha
  · have hfull : Repeated (turns ++ [d.toRecord true d.messages d.promptTokenIds]) d :=
      opening_repeated hd ha
    have hplaced := hp
    unfold placeTurn at hplaced
    rw [if_neg ha] at hplaced
    unfold placeOpening at hplaced
    split at hplaced
    · cases hplaced
      exact hfull
    · split at hplaced
      · obtain ⟨same, -, hplaced⟩ := bind_ok hplaced
        split at hplaced
        · cases hplaced
          exact hsame rfl
        · cases hplaced
          exact hfull
      · cases hplaced
        exact hfull

/-! ## 3. Runs of deliveries -/

/-- A call of `record_completion`: where an exception strikes, if one does, and messages that are
    dicts. -/
structure RecordCall where
  now : Rat
  sid : String
  delivery : Delivery
  fault : Option RecordFault
  dicts : Dicts delivery.messages

namespace RecordCall

/-- The session and agent a call is for. -/
def owner (c : RecordCall) : String × Option String := (c.sid, c.delivery.agentId)

/-- The same turn again: messages, prompt and completion. What else comes with it is not read. -/
structure Redelivers (again c : RecordCall) : Prop where
  owner : again.owner = c.owner
  messages : again.delivery.messages = c.delivery.messages
  promptTokenIds : again.delivery.promptTokenIds = c.delivery.promptTokenIds
  tokenIds : again.delivery.tokenIds = c.delivery.tokenIds

end RecordCall

namespace SessionRecorder

/-- The result of a call, with the exception it raises, if it does. -/
def call (r : SessionRecorder) (c : RecordCall) : Except PyError Unit × SessionRecorder :=
  r.recordCompletion c.now c.sid c.delivery c.fault

/-- The recorder after a run of calls. -/
def record (r : SessionRecorder) (calls : List RecordCall) : SessionRecorder :=
  calls.foldl (fun r c => (r.call c).2) r

theorem placeTurn_congr {turns : List CompletionRecord} {d d' : Delivery}
    (hm : d'.messages = d.messages) (hp : d'.promptTokenIds = d.promptTokenIds)
    (ht : d'.tokenIds = d.tokenIds) : placeTurn turns d' = placeTurn turns d := by
  simp only [placeTurn, placeOpening, placeContinuation, hm, hp, ht]

/-- Carrying out a placement writes the session of the delivery and no other. -/
theorem carryOut_sessions (r : SessionRecorder) (sid : String) (s : SessionRecord) (d : Delivery)
    (fault : Option RecordFault) (repairs : Bool) (p : Placement) :
    ∃ s', ∀ k, ((r.putSession sid s).carryOut sid s d fault repairs p).2.sessions.get? k =
      if k = sid then some s' else r.sessions.get? k := by
  have hput : ∀ s' k, ((r.putSession sid s).putSession sid s').sessions.get? k =
      if k = sid then some s' else r.sessions.get? k := by
    intro s' k
    rw [putSession_get?, putSession_get?]
    split <;> rfl
  cases p with
  | duplicate =>
    refine ⟨s, fun k => ?_⟩
    show ((r.putSession sid s).resolve sid d.agentId repairs).sessions.get? k = _
    rw [resolve_sessions, putSession_get?]
  | turn new messages promptIds =>
    unfold carryOut
    by_cases hf : fault = some .construct
    · simp only [if_pos hf]
      exact ⟨_, hput _⟩
    · simp only [if_neg hf, resolve_sessions]
      exact ⟨_, hput _⟩

/-- The sessions a recorder knows stay known. -/
theorem call_known {r : SessionRecorder} (c : RecordCall) {k : String} {s : SessionRecord}
    (h : r.sessions.get? k = some s) : ∃ s', (r.call c).2.sessions.get? k = some s' := by
  have hput : ∃ s', (r.putSession c.sid (r.sessionFor c.sid)).sessions.get? k = some s' := by
    rw [putSession_get?]
    split
    · exact ⟨_, rfl⟩
    · exact ⟨s, h⟩
  unfold call
  by_cases hf : c.fault = some .early
  · unfold recordCompletion
    rw [if_pos hf]
    exact ⟨s, h⟩
  by_cases ht : r.tombstoned c.now c.sid = true
  · unfold recordCompletion
    rw [if_neg hf, if_pos ht]
    exact ⟨s, h⟩
  rw [recordCompletion_eq r hf (by simpa using ht)]
  split
  · exact hput
  · exact hput
  · next repairs p _ _ =>
    obtain ⟨s', hs'⟩ := r.carryOut_sessions c.sid (r.sessionFor c.sid) c.delivery c.fault repairs p
    rw [hs']
    split
    · exact ⟨_, rfl⟩
    · exact ⟨s, h⟩

/-- A call that returns has placed its delivery. -/
theorem call_placed {r : SessionRecorder} {c : RecordCall}
    (hlive : r.tombstoned c.now c.sid = false) (h : (r.call c).1 = .ok ()) :
    ∃ p, placeTurn (r.recordedTurns c.sid c.delivery.agentId) c.delivery = .ok p ∧
      (r.call c).2.recordedTurns c.sid c.delivery.agentId =
        afterPlacement (r.recordedTurns c.sid c.delivery.agentId) c.delivery p ∧
      ∃ s, (r.call c).2.sessions.get? c.sid = some s := by
  unfold call at h ⊢
  have hf : c.fault ≠ some .early := by
    intro hf
    unfold recordCompletion at h
    rw [if_pos hf] at h
    cases h
  have hturns := r.recordCompletion_recordedTurns c.now c.sid c.delivery c.fault c.sid
    c.delivery.agentId
  rw [if_pos ⟨rfl, rfl⟩] at hturns
  rw [recordCompletion_eq r hf hlive] at h hturns ⊢
  cases hr : repairsFailure (r.failedTurn c.sid c.delivery.agentId)
      (r.recordedTurns c.sid c.delivery.agentId).length c.delivery with
  | error e =>
    rw [hr] at h
    cases h
  | ok repairs =>
    cases hp : placeTurn (r.recordedTurns c.sid c.delivery.agentId) c.delivery with
    | error e =>
      rw [hr, hp] at h
      cases h
    | ok p =>
      simp only [hr, hp] at h hturns ⊢
      obtain ⟨s', hs'⟩ := r.carryOut_sessions c.sid (r.sessionFor c.sid) c.delivery c.fault
        repairs p
      refine ⟨p, rfl, ?_, s', by rw [hs', if_pos rfl]⟩
      rw [hturns]
      unfold landing
      simp only [hf, hlive, Bool.false_eq_true, or_false, false_or, hr, hp]
      by_cases hc : c.fault = some .construct
      · -- the record was built, so the delivery is a duplicate
        cases p with
        | duplicate => rw [if_pos hc]; rfl
        | turn new messages promptIds =>
          unfold carryOut at h
          simp only [if_pos hc] at h
          cases h
      · rw [if_neg hc]

/-- A repeated delivery leaves every session as it is. -/
theorem call_repeated {r : SessionRecorder} {c : RecordCall}
    (h : Repeated (r.recordedTurns c.sid c.delivery.agentId) c.delivery) {s : SessionRecord}
    (hs : r.sessions.get? c.sid = some s) (k : String) :
    (r.call c).2.sessions.get? k = r.sessions.get? k := by
  have hput : (r.putSession c.sid (r.sessionFor c.sid)).sessions.get? k = r.sessions.get? k := by
    rw [putSession_get?]
    split
    · next hk => rw [hk, sessionFor, hs]; rfl
    · rfl
  unfold call
  by_cases hf : c.fault = some .early
  · unfold recordCompletion
    rw [if_pos hf]
  by_cases ht : r.tombstoned c.now c.sid = true
  · unfold recordCompletion
    rw [if_neg hf, if_pos ht]
  rw [recordCompletion_eq r hf (by simpa using ht)]
  split
  · exact hput
  · exact hput
  · next repairs p _ hp =>
    rw [h p hp]
    exact (congrArg (fun d : Dict String SessionRecord => d.get? k)
      (resolve_sessions _ _ _ _)).trans hput

/-- Redelivering a turn, and recording any other agent's, keeps the turn repeated. -/
theorem call_keeps {r : SessionRecorder} {c x : RecordCall}
    (h : Repeated (r.recordedTurns c.sid c.delivery.agentId) c.delivery)
    (hx : x.Redelivers c ∨ x.owner ≠ c.owner) :
    (r.call x).2.recordedTurns c.sid c.delivery.agentId =
      r.recordedTurns c.sid c.delivery.agentId := by
  unfold call
  rw [recordCompletion_recordedTurns]
  rcases hx with hx | hx
  · obtain ⟨hsid, hagent⟩ := Prod.mk.inj hx.owner
    rw [hsid, hagent, if_pos ⟨rfl, rfl⟩]
    unfold landing
    split
    · rfl
    · next p hp =>
      split at hp
      · cases hp
      · split at hp
        · next hplaced =>
          cases hp
          rw [hagent, placeTurn_congr hx.messages hx.promptTokenIds hx.tokenIds] at hplaced
          rw [h p hplaced]
          rfl
        · cases hp
  · rw [if_neg fun he => hx (Prod.ext he.1.symm he.2.symm)]

/-- The same over a run: by induction on its calls. -/
theorem record_keeps {c : RecordCall} : ∀ (calls : List RecordCall) {r : SessionRecorder},
    (∀ x ∈ calls, x.Redelivers c ∨ x.owner ≠ c.owner) →
    Repeated (r.recordedTurns c.sid c.delivery.agentId) c.delivery →
    (∃ s, r.sessions.get? c.sid = some s) →
      Repeated ((r.record calls).recordedTurns c.sid c.delivery.agentId) c.delivery ∧
        ∃ s, (r.record calls).sessions.get? c.sid = some s
  | [], _, _, hrep, hknown => ⟨hrep, hknown⟩
  | x :: calls, r, hx, hrep, ⟨_, hs⟩ => by
      obtain ⟨hhead, htail⟩ := List.forall_mem_cons.mp hx
      have hstep : Repeated ((r.call x).2.recordedTurns c.sid c.delivery.agentId) c.delivery := by
        rw [call_keeps hrep hhead]
        exact hrep
      exact record_keeps calls htail hstep (call_known x hs)

theorem record_deleted : ∀ (calls : List RecordCall) (r : SessionRecorder),
    (r.record calls).deleted = r.deleted
  | [], _ => rfl
  | x :: calls, r =>
      (record_deleted calls (r.call x).2).trans (recordCompletion_deleted r _ _ _ _)

/-- **Redelivery is idempotent.** After any deliveries, a delivered turn that is delivered again
    leaves every session's record as it is, any number of times and whatever the other agents
    deliver in between. -/
theorem redelivery_idempotent (before after : List RecordCall) (c again : RecordCall)
    (hdelivered : ((empty.record before).call c).1 = .ok ())
    (hafter : ∀ x ∈ after, x.Redelivers c ∨ x.owner ≠ c.owner) (hagain : again.Redelivers c)
    (k : String) :
    ((empty.record (before ++ c :: after)).call again).2.getSession k =
      (empty.record (before ++ c :: after)).getSession k := by
  have hlive : (empty.record before).tombstoned c.now c.sid = false := by
    unfold tombstoned
    rw [record_deleted]
    rfl
  obtain ⟨p, hp, hturns, hknown⟩ := call_placed hlive hdelivered
  have hfirst : Repeated (((empty.record before).call c).2.recordedTurns c.sid
      c.delivery.agentId) c.delivery := by
    rw [hturns]
    exact placeTurn_repeated c.dicts hp
  have hsplit : empty.record (before ++ c :: after) =
      ((empty.record before).call c).2.record after := by
    unfold record
    rw [List.foldl_append]
    rfl
  rw [hsplit]
  obtain ⟨hrep, s, hs⟩ := record_keeps after hafter hfirst hknown
  obtain ⟨hsid, hagent⟩ := Prod.mk.inj hagain.owner
  rw [← hsid] at hs
  refine call_repeated (fun q hq => ?_) hs k
  rw [hsid, hagent, placeTurn_congr hagain.messages hagain.promptTokenIds hagain.tokenIds] at hq
  exact hrep q hq

/-! ### Two agents -/

/-- An opening turn of an agent, delivered to the session `s`. -/
def openingCall (agent : String) (blob : BlobArg) : RecordCall where
  now := 0
  sid := "s"
  delivery :=
    { messages := [[("role", .str "user"), ("content", .str "hi")]], completionText := "ok",
      tokenIds := [7], logprobs := [.finite 0], finishReason := some "stop",
      promptTokenIds := [1, 2], agentId := some agent, content := none, reasoningContent := none,
      toolCalls := none, weightVersion := none, routedExperts := blob, samplingParams := none }
  fault := none
  dicts := by
    rintro m hm
    obtain rfl := List.mem_singleton.mp hm
    exact ⟨by decide, trivial, trivial, trivial⟩

/-- A turn, another agent's, and the turn again without its blob. -/
theorem redelivery_idempotent_agents :
    ((empty.record [openingCall "a" (.blob ⟨"AAA=", 2, 0, 1, "uint8"⟩), openingCall "b" .absent]).call
        (openingCall "a" .absent)).2.getSession "s" =
      (empty.record [openingCall "a" (.blob ⟨"AAA=", 2, 0, 1, "uint8"⟩),
        openingCall "b" .absent]).getSession "s" :=
  redelivery_idempotent [] [openingCall "b" .absent]
    (openingCall "a" (.blob ⟨"AAA=", 2, 0, 1, "uint8"⟩)) (openingCall "a" .absent) rfl
    (fun x hx => .inr (by rw [List.mem_singleton.mp hx]; decide)) ⟨rfl, rfl, rfl, rfl⟩ "s"

end SessionRecorder

end RolloutProxy
