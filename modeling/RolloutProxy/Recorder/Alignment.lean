/-
  File:      RolloutProxy/Recorder/Alignment.lean
  Subject:   THE RECORDED TURNS OF AN AGENT AGAINST THE STREAM they are deltas of.

  * `recordedTurns` are an agent's turns in a session; `recordCompletion` changes no others, and
    these by the placement of the delivery (`recordCompletion_recordedTurns`).
  * `Mirrors` relates the turns to the turn served last: they spell out its stream and count its
    messages. `Ready` is what a delivery needs to be stored as the next delta.
  * `placeTurn_placed`: a ready delivery, or one mirrored already, is mirrored afterwards, and no
    echo is stored with it.
-/
import RolloutProxy.Recorder.Recorder

namespace RolloutProxy

/-! ## 1. What a delivery changes -/

/-- The turns after a placement. -/
def afterPlacement (turns : List CompletionRecord) (d : Delivery) :
    Placement → List CompletionRecord
  | .duplicate => turns
  | .turn new messages promptIds => turns ++ [d.toRecord new messages promptIds]

namespace SessionRecorder

variable (r : SessionRecorder)

/-- The turns recorded for an agent of a session. -/
def recordedTurns (sid : String) (agent : Option String) : List CompletionRecord :=
  agentTurns (r.sessionFor sid).turns agent

/-- The placement a delivery gets, where it changes or confirms the record. -/
def landing (now : Rat) (sid : String) (d : Delivery) (fault : Option RecordFault) :
    Option Placement :=
  if fault = some .early ∨ fault = some .construct ∨ r.tombstoned now sid = true then none
  else
    match repairsFailure (r.failedTurn sid d.agentId) (r.recordedTurns sid d.agentId).length d,
        placeTurn (r.recordedTurns sid d.agentId) d with
    | .ok _, .ok p => some p
    | _, _ => none

theorem clearRecordingFailure_sessions (sid : String) (agent : Option String) :
    (r.clearRecordingFailure sid agent).sessions = r.sessions := by
  unfold clearRecordingFailure
  split <;> rfl

@[simp] theorem resolve_sessions (sid : String) (agent : Option String) (repairs : Bool) :
    (r.resolve sid agent repairs).sessions = r.sessions := by
  unfold resolve
  split
  · exact r.clearRecordingFailure_sessions sid agent
  · rfl

@[simp] theorem resolve_deleted (sid : String) (agent : Option String) (repairs : Bool) :
    (r.resolve sid agent repairs).deleted = r.deleted := by
  unfold resolve clearRecordingFailure
  split
  · split <;> rfl
  · rfl

theorem sessionFor_putSession (sid k : String) (s : SessionRecord) :
    (r.putSession sid s).sessionFor k = if k = sid then s else r.sessionFor k := by
  unfold sessionFor
  rw [putSession_get?]
  split <;> rfl

theorem sessionFor_congr {r r' : SessionRecorder} (h : r.sessions = r'.sessions) (sid : String) :
    r.sessionFor sid = r'.sessionFor sid := by
  unfold sessionFor
  rw [h]

/-- Recording deletes no session. -/
theorem recordCompletion_deleted (now : Rat) (sid : String) (d : Delivery)
    (fault : Option RecordFault) : (r.recordCompletion now sid d fault).2.deleted = r.deleted := by
  unfold recordCompletion
  split
  · rfl
  split
  · rfl
  simp only
  split
  · rfl
  · rfl
  · next repairs p _ _ =>
    cases p with
    | duplicate => exact resolve_deleted _ _ _ _
    | turn new messages promptIds =>
        unfold carryOut
        simp only
        split
        · rfl
        · exact resolve_deleted _ _ _ _

/-- What carrying out a placement leaves of a session's turns. -/
theorem carryOut_turns (sid : String) (s : SessionRecord) (d : Delivery)
    (fault : Option RecordFault) (repairs : Bool) (p : Placement) (k : String) :
    (((r.putSession sid s).carryOut sid s d fault repairs p).2.sessionFor k).turns =
      if k = sid then if fault = some .construct then s.turns else afterPlacement s.turns d p
      else (r.sessionFor k).turns := by
  cases p with
  | duplicate =>
      rw [show ((r.putSession sid s).carryOut sid s d fault repairs .duplicate).2 =
        (r.putSession sid s).resolve sid d.agentId repairs from rfl,
        sessionFor_congr (resolve_sessions _ _ _ _), sessionFor_putSession]
      by_cases hk : k = sid
      · simp only [if_pos hk, afterPlacement, ite_self]
      · rw [if_neg hk, if_neg hk]
  | turn new messages promptIds =>
      unfold carryOut
      simp only
      by_cases hf : fault = some .construct
      · simp only [if_pos hf, sessionFor_putSession]
        by_cases hk : k = sid
        · rw [if_pos hk, if_pos hk]
        · simp only [if_neg hk]
      · simp only [if_neg hf]
        rw [sessionFor_congr (resolve_sessions _ _ _ _), sessionFor_putSession]
        by_cases hk : k = sid
        · rw [if_pos hk, if_pos hk]
          rfl
        · simp only [if_neg hk, sessionFor_putSession]

/-- **What a delivery records**: its own agent's turns change by its placement, if it has one;
    every other session and agent keeps its turns. -/
theorem recordCompletion_recordedTurns (now : Rat) (sid : String) (d : Delivery)
    (fault : Option RecordFault) (k : String) (agent : Option String) :
    (r.recordCompletion now sid d fault).2.recordedTurns k agent =
      if k = sid ∧ agent = d.agentId then
        match r.landing now sid d fault with
        | none => r.recordedTurns sid d.agentId
        | some p => afterPlacement (r.recordedTurns sid d.agentId) d p
      else r.recordedTurns k agent := by
  -- without a placement that is carried out every agent keeps its turns
  have hsame : ∀ (r' : SessionRecorder), (∀ j, (r'.sessionFor j).turns = (r.sessionFor j).turns) →
      r'.recordedTurns k agent = if k = sid ∧ agent = d.agentId then r.recordedTurns sid d.agentId
        else r.recordedTurns k agent := by
    intro r' h
    unfold recordedTurns
    rw [h]
    split
    · next hk => rw [hk.1, hk.2]
    · rfl
  have hput : ∀ j, ((r.putSession sid (r.sessionFor sid)).sessionFor j).turns =
      (r.sessionFor j).turns := by
    intro j
    rw [sessionFor_putSession]
    split
    · next hj => rw [hj]
    · rfl
  unfold recordCompletion landing
  by_cases he : fault = some .early
  · simp only [he, if_true, true_or]
    exact hsame r fun _ => rfl
  by_cases ht : r.tombstoned now sid = true
  · simp only [if_neg he, ht, if_true, or_true]
    exact hsame r fun _ => rfl
  simp only [ht, Bool.false_eq_true, if_false, putSession_failedTurn, or_false, he, false_or]
  rw [show agentTurns (r.sessionFor sid).turns d.agentId = r.recordedTurns sid d.agentId from rfl]
  cases repairsFailure (r.failedTurn sid d.agentId) (r.recordedTurns sid d.agentId).length d with
  | error e =>
      simp only [ite_self]
      exact hsame _ hput
  | ok repairs =>
      cases placeTurn (r.recordedTurns sid d.agentId) d with
      | error e =>
          simp only [ite_self]
          exact hsame _ hput
      | ok p =>
          simp only
          unfold recordedTurns
          rw [carryOut_turns]
          by_cases hk : k = sid
          · subst hk
            simp only [if_true, true_and]
            by_cases hf : fault = some .construct
            · -- the record is refused, and no turn appended
              simp only [if_pos hf]
              split
              · next ha => rw [ha]
              · rfl
            · simp only [if_neg hf]
              cases p with
              | duplicate =>
                  simp only [afterPlacement]
                  split
                  · next ha => rw [ha]
                  · rfl
              | turn new messages promptIds =>
                  have hid : (d.toRecord new messages promptIds).agentId = d.agentId := rfl
                  simp only [afterPlacement, agentTurns_append, hid]
                  by_cases ha : agent = d.agentId
                  · rw [if_pos ha, if_pos ha.symm, ha]
                  · rw [if_neg ha, if_neg (Ne.symm ha), List.append_nil]
          · rw [if_neg hk, if_neg fun h => hk h.1]

end SessionRecorder

/-! ## 2. Turns that mirror a stream -/

/-- The turns spell out the stream of the turn served last, and count its messages. -/
structure Mirrors (turns : List CompletionRecord) (messages : List Fields)
    (promptIds completionIds : List Int) : Prop where
  stream : recordedStream turns = promptIds ++ completionIds
  messages : (recordedMessages turns).length = (nonAssistant messages).length
  last : ∃ t, turns.getLast? = some t ∧ t.completionTokenIds = completionIds

/-- The delivery opens a conversation, or extends the one the turns spell out. -/
def Ready (turns : List CompletionRecord) (messages : List Fields) (promptIds : List Int) : Prop :=
  messages.any isAssistant = false ∨
    (turns ≠ [] ∧ recordedStream turns <+: promptIds ∧
      (recordedMessages turns).length < (nonAssistant messages).length)

theorem nonAssistant_no_assistant (l : List Fields) : (nonAssistant l).any isAssistant = false := by
  rw [List.any_eq_false]
  intro m hm
  simp only [nonAssistant, List.mem_filter, Bool.not_eq_true'] at hm
  simp [hm.2]

theorem drop_no_assistant {l : List Fields} (h : l.any isAssistant = false) (n : Nat) :
    (l.drop n).any isAssistant = false := by
  rw [List.any_eq_false] at h ⊢
  exact fun m hm => h m (List.mem_of_mem_drop hm)

theorem nonAssistant_eq_self {l : List Fields} (h : l.any isAssistant = false) :
    nonAssistant l = l := by
  rw [nonAssistant, List.filter_eq_self]
  intro m hm
  simpa using List.any_eq_false.mp h m hm

/-- The turns after a conversation start are that start alone. -/
theorem currentConversation_of_reset {turns : List CompletionRecord} {t : CompletionRecord}
    (h : turns.getLast? = some t) (hn : t.newConversation = true) :
    currentConversation turns = [t] := by
  obtain ⟨init, rfl⟩ := List.getLast?_eq_some_iff.mp h
  rw [currentConversation_append, if_pos hn]

/-- What is stored is mirrored. -/
theorem mirrors_full (turns : List CompletionRecord) (d : Delivery) :
    Mirrors (turns ++ [d.toRecord true d.messages d.promptTokenIds]) d.messages d.promptTokenIds
      d.tokenIds where
  stream := by rw [recordedStream_append]; rfl
  messages := by rw [recordedMessages_append]; rfl
  last := ⟨_, List.getLast?_concat, rfl⟩

theorem mirrors_delta {turns : List CompletionRecord} {d : Delivery} {gap : List Int}
    (hs : recordedStream turns ++ gap = d.promptTokenIds)
    (hm : (recordedMessages turns).length ≤ (nonAssistant d.messages).length) :
    Mirrors (turns ++ [d.toRecord false
        ((nonAssistant d.messages).drop (recordedMessages turns).length) gap])
      d.messages d.promptTokenIds d.tokenIds where
  stream := by
    rw [recordedStream_append, ← hs]
    simp [Delivery.toRecord, CompletionRecord.tokens]
  messages := by
    rw [recordedMessages_append]
    simp only [Delivery.toRecord, Bool.false_eq_true, if_false, List.length_append,
      nonAssistant_eq_self (drop_no_assistant (nonAssistant_no_assistant _) _), List.length_drop]
    omega
  last := ⟨_, List.getLast?_concat, rfl⟩

/-- The turns count the messages and tokens of a delivery, and end with its completion. -/
structure Counted (turns : List CompletionRecord) (d : Delivery) : Prop where
  stream : (recordedStream turns).length = d.promptTokenIds.length + d.tokenIds.length
  messages : (recordedMessages turns).length = (nonAssistant d.messages).length
  last : ∃ t, turns.getLast? = some t ∧ t.completionTokenIds = d.tokenIds

theorem Mirrors.counted {turns : List CompletionRecord} {d : Delivery}
    (h : Mirrors turns d.messages d.promptTokenIds d.tokenIds) : Counted turns d where
  stream := by rw [h.stream, List.length_append]
  messages := h.messages
  last := h.last

/-- **A continuation that is counted already is a duplicate.** -/
theorem Counted.duplicate {turns : List CompletionRecord} {d : Delivery} (h : Counted turns d)
    {last : CompletionRecord} (hlast : turns.getLast? = some last) :
    placeContinuation turns last d = .duplicate := by
  obtain ⟨t, ht, htok⟩ := h.last
  obtain rfl : last = t := Option.some.inj (hlast.symm.trans ht)
  have hs := h.stream
  have hdup : (nonAssistant d.messages).length = (recordedMessages turns).length ∧
      d.tokenIds = last.completionTokenIds ∧ (d.promptTokenIds.length : Int) =
        (recordedStream turns).length - last.completionTokenIds.length :=
    ⟨h.messages.symm, htok.symm, by rw [htok]; omega⟩
  unfold placeContinuation
  rw [conversationExtent_eq]
  simp only [if_pos hdup]

/-- What the placement of a mirrored or ready delivery comes to. -/
structure Placed (turns : List CompletionRecord) (d : Delivery) (p : Placement) : Prop where
  mirrors : Mirrors (afterPlacement turns d p) d.messages d.promptTokenIds d.tokenIds
  noEcho : ∀ new messages promptIds, p = .turn new messages promptIds →
    messages.any isAssistant = false

theorem placeOpening_placed {turns : List CompletionRecord} {d : Delivery} {p : Placement}
    (ho : d.messages.any isAssistant = false) (h : placeOpening turns.getLast? d = .ok p) :
    Placed turns d p := by
  have full : Placed turns d (.turn true d.messages d.promptTokenIds) :=
    ⟨mirrors_full turns d, by rintro _ _ _ ⟨⟩; exact ho⟩
  unfold placeOpening at h
  split at h
  · cases h; exact full
  · next last hlast =>
    split at h
    · next hnew =>
      obtain ⟨same, hsame, h⟩ := bind_ok h
      split at h
      · next hdup =>
        cases h
        obtain ⟨hs, htok, hprompt⟩ := hdup
        rw [hs] at hsame
        refine ⟨⟨?_, ?_, last, hlast, htok.symm⟩, by rintro _ _ _ ⟨⟩⟩
        · simp only [afterPlacement, recordedStream, currentConversation_of_reset hlast hnew,
            List.flatMap_cons, List.flatMap_nil, List.append_nil, CompletionRecord.tokens, htok,
            hprompt]
        · simp only [afterPlacement, recordedMessages, currentConversation_of_reset hlast hnew,
            List.flatMap_cons, List.flatMap_nil, List.append_nil]
          exact (normalizeAlike_true hsame).1.symm
      · cases h; exact full
    · cases h; exact full

/-- **A ready or mirrored delivery is mirrored once it is placed**, and stores no echo. -/
theorem placeTurn_placed {turns : List CompletionRecord} {d : Delivery} {p : Placement}
    (h : Ready turns d.messages d.promptTokenIds ∨
      Mirrors turns d.messages d.promptTokenIds d.tokenIds)
    (hp : placeTurn turns d = .ok p) : Placed turns d p := by
  unfold placeTurn at hp
  by_cases ha : d.messages.any isAssistant = true
  · rw [if_pos ha] at hp
    cases hlast : turns.getLast? with
    | none =>
        have hnil := List.getLast?_eq_none_iff.mp hlast
        rcases h with (ho | ⟨hne, _⟩) | hm
        · rw [ho] at ha; cases ha
        · exact absurd hnil hne
        · obtain ⟨t, ht, _⟩ := hm.last
          rw [hlast] at ht; cases ht
    | some last =>
        rw [hlast] at hp
        simp only [Except.ok.injEq] at hp
        subst hp
        rcases h with (ho | ⟨_, ⟨gap, hgap⟩, hcount⟩) | hm
        · rw [ho] at ha; cases ha
        · unfold placeContinuation
          rw [conversationExtent_eq]
          have hlen : (recordedStream turns).length ≤ d.promptTokenIds.length := by
            rw [← hgap, List.length_append]; omega
          have hdrop : d.promptTokenIds.drop (recordedStream turns).length = gap := by
            rw [← hgap, List.drop_left]
          simp only [show (nonAssistant d.messages).length ≠ (recordedMessages turns).length by omega,
            false_and, if_false, not_lt.mpr hcount.le, not_lt.mpr hlen, or_self, hdrop]
          exact ⟨mirrors_delta hgap hcount.le, by
            rintro _ _ _ ⟨⟩
            exact drop_no_assistant (nonAssistant_no_assistant _) _⟩
        · rw [hm.counted.duplicate hlast]
          exact ⟨hm, by rintro _ _ _ ⟨⟩⟩
  · rw [if_neg ha] at hp
    exact placeOpening_placed (by simpa using ha) hp

end RolloutProxy
