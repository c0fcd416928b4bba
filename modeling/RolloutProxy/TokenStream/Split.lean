/-
  File:      RolloutProxy/TokenStream/Split.lean
  Subject:   THE MANAGER BETWEEN ITS LOCK SECTIONS: `build_prompt`, `cached_turn`, `committed_turn`,
             `commit` and `drop` (token_stream.py) as steps of calls that run side by side.

  * A stream state is an object with an identity: a call that found one keeps it across its lock
    sections, whatever becomes of the session meanwhile.
  * The steps of a call are its lock sections. What runs between two sections, or behind the last
    one, reads objects whose fields (the replay count apart) never change, so it is part of the
    step that follows.
  * `observed` lists what the steps did to the table, in order; nothing in the code reads it.
  * Alone, the steps of a call are the operation of Manager.lean (`lookupPrompt_alone`,
    `cachedTurn_alone`, `publish_alone`, `forget_alone`).
-/
import RolloutProxy.TokenStream.Manager
import RolloutProxy.Lib.Run

namespace RolloutProxy

/-! ## 1. Calls and what they leave -/

/-- A call between its lock sections, with the object its lookup found. -/
inductive PendingCall where
  | build (sid : String) (normalized : List Fields) (tools : Json) (effort : Option String)
      (found : Option Nat) (evicted : Bool)
  | cached (sid : String) (messages : List Fields) (effort : Option String) (found : Option Nat)
  | turn (completionIds : List Int) (found : Option Nat)

/-- The object a call holds. -/
def PendingCall.found : PendingCall → Option Nat
  | .build _ _ _ _ found _ => found
  | .cached _ _ _ found => found
  | .turn _ found => found

/-- What a call returns, or raises. -/
inductive CallResult where
  | prompt (r : Except PyError (List Int))
  | replay (r : Except PyError (Option ReplayedTurn))
  | turn (r : Option CommittedTurn)
  | done (r : Except PyError Unit)

/-- What a step does to the table of sessions. -/
inductive Observation where
  /-- a `build_prompt` lookup found a state -/
  | found (sid : String)
  /-- the `cached_turn` of call `t` found the state of commit `n` -/
  | looked (t : Nat) (sid : String) (n : Nat)
  /-- call `t` was served `r` -/
  | served (t : Nat) (sid : String) (n : Nat) (r : ReplayedTurn)
  /-- a commit, with the turn it can replay -/
  | committed (sid : String) (turn : Option ReplayedTurn)
  | dropped (sid : String)

/-- The turn a commit with these arguments can replay. -/
def replayable (promptIds completionIds : List Int) (logProbs : Option (List PyFloat))
    (finishReason : Option String) (engineMeta : EngineMeta) : Option ReplayedTurn :=
  match completionIds, logProbs, finishReason with
  | _ :: _, some lps, some reason => some ⟨promptIds, completionIds, lps, reason, engineMeta⟩
  | _, _, _ => none

/-- The manager: its state objects by identity, the two tables, and the calls under way. -/
structure SplitManager where
  objects : List SessionState
  sessions : Dict String Nat
  evicted : Dict String Unit
  calls : Dict Nat PendingCall
  returned : List (Nat × CallResult)
  observed : List Observation

namespace SplitManager

def empty : SplitManager := ⟨[], ∅, ∅, ∅, [], []⟩

variable (c : ManagerConfig) (s : SplitManager)

/-! ## 2. Lookups -/

/-- A call that ends without a second lock section. -/
def leave (t : Nat) (r : CallResult) : SplitManager :=
  { s with calls := s.calls.erase t, returned := s.returned ++ [(t, r)] }

/-- `build_prompt` up to the end of its lock section. -/
def lookupPrompt (t : Nat) (sid : Option String) (messages : List Fields) (tools : Json)
    (effort : Option String) : SplitManager :=
  match sid with
  | none => s.leave t (.prompt (refuse .noSessionId))
  | some sid =>
    match normalizeMessages messages, validateTools tools with
    | .error e, _ => s.leave t (.prompt (refuse e))
    | .ok _, .error e => s.leave t (.prompt (refuse e))
    | .ok normalized, .ok () =>
      { s with
        sessions := s.sessions.moveToEnd sid
        calls := s.calls.set t
          (.build sid normalized tools effort (s.sessions.get? sid) (s.evicted.contains sid))
        observed := s.observed ++ if s.sessions.contains sid then [.found sid] else [] }

/-- `cached_turn` up to the end of its first lock section. -/
def lookupCached (t : Nat) (sid : Option String) (messages : List Fields)
    (effort : Option String) : SplitManager :=
  match sid with
  | none => s.leave t (.replay (.ok none))
  | some sid =>
    { s with
      calls := s.calls.set t (.cached sid messages effort (s.sessions.get? sid))
      observed := s.observed ++
        match s.sessions.get? sid with
        | none => []
        | some n => [.looked t sid n] }

/-- `committed_turn` up to the end of its lock section. -/
def lookupTurn (t : Nat) (sid : Option String) (completionIds : List Int) : SplitManager :=
  { s with calls := s.calls.set t (.turn completionIds (sid.bind s.sessions.get?)) }

/-! ## 3. What follows a lookup -/

/-- The state behind a reference. -/
def object (found : Option Nat) : Option SessionState := found.bind fun n => s.objects[n]?

/-- `self._sessions.get(session_id) is state`, then `move_to_end`. -/
def touchIfCurrent (sid : String) (n : Nat) : Dict String Nat :=
  if s.sessions.get? sid = some n then s.sessions.moveToEnd sid else s.sessions

@[simp] theorem touchIfCurrent_get? (sid : String) (n : Nat) (k : String) :
    (s.touchIfCurrent sid n).get? k = s.sessions.get? k := by
  unfold touchIfCurrent
  split
  · exact Dict.get?_moveToEnd _ _ _
  · rfl

/-- `committed_turn` behind its lookup. -/
def turnFor (state : Option SessionState) (completionIds : List Int) : Option CommittedTurn :=
  match state with
  | none => none
  | some st =>
    match st.lastTurn with
    | none => none
    | some turn =>
      if completionIds.length ≠ turn.completionLen ∨
          lastN turn.completionLen st.stream ≠ completionIds then none
      else some turn

/-- What a call under way returns when it goes on now. -/
def outcome : PendingCall → CallResult
  | .build sid normalized tools effort found evicted =>
    .prompt (c.promptFor sid (s.object found) evicted normalized tools effort)
  | .cached _ messages effort found =>
    match TokenStreamManager.repeatedTurn (s.object found) messages effort with
    | .error e => .replay (.error e)
    | .ok none => .replay (.ok none)
    | .ok (some (st, turn)) =>
      if c.maxTurnReplays ≤ st.replays then .replay (refuse (.replaysSpent st.replays))
      else .replay (.ok (some (TokenStreamManager.replayOf st turn)))
  | .turn completionIds found => .turn (turnFor (s.object found) completionIds)

/-- The second lock section of `cached_turn`, for a replay within the cap. -/
def spend (t : Nat) (sid : String) (n : Nat) (st : SessionState) (r : ReplayedTurn) :
    SplitManager :=
  { s with
    objects := s.objects.set n { st with replays := st.replays + 1 }
    sessions := s.touchIfCurrent sid n
    observed := s.observed ++ [.served t sid n r] }

/-- A call goes on behind its lookup, to its end. -/
def resume (t : Nat) (call : PendingCall) : SplitManager :=
  let s' := s.leave t (s.outcome c call)
  match call, s.outcome c call with
  | .cached sid _ _ (some n), .replay (.ok (some r)) =>
    match s.objects[n]? with
    | some st => s'.spend t sid n st r
    | none => s'
  | _, _ => s'

/-- A call that is served nothing just ends. -/
theorem resume_unserved {t : Nat} {call : PendingCall}
    (h : ∀ r, s.outcome c call ≠ .replay (.ok (some r))) :
    s.resume c t call = s.leave t (s.outcome c call) := by
  unfold resume
  split
  · next hout => exact absurd hout (h _)
  · rfl

theorem resume_served {t n : Nat} {sid : String} {messages : List Fields} {effort : Option String}
    {r : ReplayedTurn} {st : SessionState} (hst : s.objects[n]? = some st)
    (h : s.outcome c (.cached sid messages effort (some n)) = .replay (.ok (some r))) :
    s.resume c t (.cached sid messages effort (some n)) =
      (s.leave t (.replay (.ok (some r)))).spend t sid n st r := by
  unfold resume
  simp only [h, hst]

/-! ## 4. `commit` and `drop` -/

/-- The table of evicted ids takes one more: one in, at most one out. -/
def noteEvicted (cap : Nat) (evicted : Dict String Unit) (sid : String) : Dict String Unit :=
  if cap < (evicted.set sid ()).size then
    match (evicted.set sid ()).popFirst with
    | none => evicted.set sid ()
    | some (_, rest) => rest
  else evicted.set sid ()

/-- The eviction loop of `commit`, with the ids it evicts; `fuel` bounds its turns. -/
def evictWhile {β : Type} (cap : Nat) :
    Nat → Dict String β → Dict String Unit → Dict String β × Dict String Unit × List String
  | 0, sessions, evicted => (sessions, evicted, [])
  | fuel + 1, sessions, evicted =>
    if cap < sessions.size then
      match sessions.popFirst with
      | none => (sessions, evicted, [])
      | some ((sid, _), rest) =>
        let kept := evictWhile cap fuel rest (noteEvicted cap evicted sid)
        (kept.1, kept.2.1, sid :: kept.2.2)
    else (sessions, evicted, [])

/-- The lock section of `commit`, for a new state object; `turn` is what is observed of it. -/
def publish (sid : String) (st : SessionState) (turn : Option ReplayedTurn) : SplitManager :=
  let sessions := (s.sessions.set sid s.objects.length).moveToEnd sid
  let kept := evictWhile c.maxSessions sessions.size sessions (s.evicted.erase sid)
  { s with
    objects := s.objects ++ [st]
    sessions := kept.1
    evicted := kept.2.1
    observed := s.observed ++ [.committed sid turn] }

/-- The state object a commit creates. -/
def committedState (normalized : List Fields) (promptIds completionIds : List Int)
    (logProbs : Option (List PyFloat)) (finishReason : Option String) (engineMeta : EngineMeta)
    (tools : Json) (effort : Option String) : SessionState where
  stream := promptIds ++ completionIds
  messages := normalized
  lastTurn := TokenStreamManager.lastTurnOf ⟨∅, ∅, s.objects.length⟩ completionIds logProbs
    finishReason engineMeta tools
  replays := 0
  tools := toolList tools
  reasoningEffort := effort

def commit (t : Nat) (sid : String) (messages : List Fields) (promptIds completionIds : List Int)
    (logProbs : Option (List PyFloat)) (finishReason : Option String) (engineMeta : EngineMeta)
    (tools : Json) (effort : Option String) : SplitManager :=
  match normalizeMessages messages with
  | .error e => s.leave t (.done (refuse e))
  | .ok normalized =>
    (s.publish c sid
      (s.committedState normalized promptIds completionIds logProbs finishReason engineMeta tools
        effort)
      (replayable promptIds completionIds logProbs finishReason engineMeta)).leave t (.done (.ok ()))

/-- The lock section of `drop`. -/
def forget (sid : String) : SplitManager :=
  { s with
    sessions := s.sessions.erase sid
    evicted := s.evicted.erase sid
    observed := s.observed ++ [.dropped sid] }

def drop (t : Nat) (sid : String) : SplitManager := (s.forget sid).leave t (.done (.ok ()))

end SplitManager

/-! ## 5. Steps -/

/-- A step of call `t`. -/
inductive SplitEvent where
  | lookupPrompt (t : Nat) (sid : Option String) (messages : List Fields) (tools : Json)
      (effort : Option String)
  | lookupCached (t : Nat) (sid : Option String) (messages : List Fields)
      (effort : Option String)
  | lookupTurn (t : Nat) (sid : Option String) (completionIds : List Int)
  | resume (t : Nat)
  | commit (t : Nat) (sid : String) (messages : List Fields) (promptIds completionIds : List Int)
      (logProbs : Option (List PyFloat)) (finishReason : Option String) (engineMeta : EngineMeta)
      (tools : Json) (effort : Option String)
  | drop (t : Nat) (sid : String)

/-- The call that takes the step. -/
def SplitEvent.call : SplitEvent → Nat
  | .lookupPrompt t .. => t
  | .lookupCached t .. => t
  | .lookupTurn t .. => t
  | .resume t => t
  | .commit t .. => t
  | .drop t _ => t

/-- The step is a commit of `sid`. -/
def SplitEvent.commits : SplitEvent → String → Prop
  | .commit _ k .., sid => k = sid
  | _, _ => False

/-- A call under way goes on; every other step starts a call. -/
def SplitManager.step (c : ManagerConfig) (s : SplitManager) (e : SplitEvent) :
    Option SplitManager :=
  match e, s.calls.get? e.call with
  | .resume t, some call => some (s.resume c t call)
  | .resume _, none => none
  | _, some _ => none
  | .lookupPrompt t sid messages tools effort, none =>
    some (s.lookupPrompt t sid messages tools effort)
  | .lookupCached t sid messages effort, none => some (s.lookupCached t sid messages effort)
  | .lookupTurn t sid completionIds, none => some (s.lookupTurn t sid completionIds)
  | .commit t sid messages promptIds completionIds logProbs finishReason engineMeta tools effort,
      none =>
    some (s.commit c t sid messages promptIds completionIds logProbs finishReason engineMeta tools
      effort)
  | .drop t sid, none => some (s.drop t sid)

/-- A manager some interleaving of calls leads to. -/
def Interleaved (c : ManagerConfig) (s : SplitManager) : Prop :=
  Steps (SplitManager.step c) (fun _ _ _ => True) .empty s

namespace SplitManager

variable {c : ManagerConfig} {s : SplitManager}

/-! ## 6. References -/

/-- What the loop leaves was there. -/
theorem evictWhile_get? {β : Type} {cap : Nat} : ∀ (fuel : Nat) (d : Dict String β)
    (ev : Dict String Unit) {k : String} {v : β}, (evictWhile cap fuel d ev).1.get? k = some v → d.get? k = some v
  | 0, d, ev, k, v, h => h
  | fuel + 1, d, ev, k, v, h => by
      unfold evictWhile at h
      split at h
      · split at h
        · exact h
        · next sid w rest hp =>
          have hrest := evictWhile_get? fuel rest _ h
          rw [Dict.get?_popFirst hp] at hrest
          split at hrest
          · cases hrest
          · exact hrest
      · exact h

/-- Every reference is to an object that was made, and no two sessions share one. -/
structure Grounded (s : SplitManager) : Prop where
  sessions : ∀ sid n, s.sessions.get? sid = some n → n < s.objects.length
  own : ∀ sid sid' n, s.sessions.get? sid = some n → s.sessions.get? sid' = some n → sid' = sid
  calls : ∀ t call n, s.calls.get? t = some call → call.found = some n → n < s.objects.length

theorem Grounded.leave (h : Grounded s) (t : Nat) (r : CallResult) : Grounded (s.leave t r) where
  sessions := h.sessions
  own := h.own
  calls := fun t' call n hc hf => by
    refine h.calls t' call n ?_ hf
    simp only [SplitManager.leave, Dict.get?_erase] at hc
    split at hc
    · cases hc
    · exact hc

/-- A call that starts holds the object its session has. -/
theorem Grounded.setCall (h : Grounded s) (t : Nat) {call : PendingCall} (sid : Option String)
    (hcall : call.found = sid.bind s.sessions.get?) (sessions : Dict String Nat)
    (hsessions : ∀ k, sessions.get? k = s.sessions.get? k) (os : List Observation) :
    Grounded { s with sessions := sessions, calls := s.calls.set t call, observed := os } where
  sessions := fun k n hk => h.sessions k n (by rw [← hsessions]; exact hk)
  own := fun k k' n hk hk' =>
    h.own k k' n (by rw [← hsessions]; exact hk) (by rw [← hsessions]; exact hk')
  calls := fun t' call' n hc hf => by
    simp only [Dict.get?_set] at hc
    split at hc
    · cases hc
      rw [hcall] at hf
      obtain ⟨k, rfl, hk⟩ := Option.bind_eq_some_iff.mp hf
      exact h.sessions k n hk
    · exact h.calls t' call' n hc hf

theorem Grounded.spend (h : Grounded s) (t : Nat) (sid : String) (n : Nat) (st : SessionState)
    (r : ReplayedTurn) : Grounded (s.spend t sid n st r) where
  sessions := fun k j hk => by
    simp only [SplitManager.spend, touchIfCurrent_get?, List.length_set] at hk ⊢
    exact h.sessions k j hk
  own := fun k k' j hk hk' => by
    simp only [SplitManager.spend, touchIfCurrent_get?] at hk hk'
    exact h.own k k' j hk hk'
  calls := fun t' call j hc hf => by
    simp only [SplitManager.spend, List.length_set]
    exact h.calls t' call j hc hf

theorem Grounded.resume (h : Grounded s) (t : Nat) (call : PendingCall) :
    Grounded (s.resume c t call) := by
  unfold SplitManager.resume
  split
  · split
    · exact (h.leave t _).spend _ _ _ _ _
    · exact h.leave t _
  · exact h.leave t _

theorem Grounded.lookupPrompt (h : Grounded s) (t : Nat) (sid : Option String)
    (messages : List Fields) (tools : Json) (effort : Option String) :
    Grounded (s.lookupPrompt t sid messages tools effort) := by
  unfold SplitManager.lookupPrompt
  split
  · exact h.leave t _
  · next sid =>
    split
    · exact h.leave t _
    · exact h.leave t _
    · exact h.setCall t (some sid) rfl _ (fun k => Dict.get?_moveToEnd _ _ _) _

theorem Grounded.lookupCached (h : Grounded s) (t : Nat) (sid : Option String)
    (messages : List Fields) (effort : Option String) :
    Grounded (s.lookupCached t sid messages effort) := by
  unfold SplitManager.lookupCached
  split
  · exact h.leave t _
  · next sid => exact h.setCall t (some sid) rfl _ (fun _ => rfl) _

/-- What a commit leaves of a session: the new object for its own, the old one for another. -/
theorem publish_get? {sid k : String} {st : SessionState} {turn : Option ReplayedTurn} {n : Nat}
    (h : (s.publish c sid st turn).sessions.get? k = some n) :
    (k = sid ∧ n = s.objects.length) ∨ (k ≠ sid ∧ s.sessions.get? k = some n) := by
  have h' := evictWhile_get? _ _ _ h
  rw [Dict.get?_moveToEnd, Dict.get?_set] at h'
  split at h'
  · next hk => exact .inl ⟨hk, (Option.some.inj h').symm⟩
  · next hk => exact .inr ⟨hk, h'⟩

theorem Grounded.publish (h : Grounded s) (sid : String) (st : SessionState)
    (turn : Option ReplayedTurn) : Grounded (s.publish c sid st turn) where
  sessions := fun k n hk => by
    have hlen : (s.publish c sid st turn).objects.length = s.objects.length + 1 := by
      simp [SplitManager.publish]
    rw [hlen]
    rcases publish_get? hk with ⟨-, rfl⟩ | ⟨-, hk⟩
    · exact Nat.lt_succ_self _
    · exact Nat.lt_succ_of_lt (h.sessions k n hk)
  own := fun k k' n hk hk' => by
    rcases publish_get? hk with ⟨rfl, hn⟩ | ⟨-, hold⟩ <;>
      rcases publish_get? hk' with ⟨rfl, hn'⟩ | ⟨-, hold'⟩
    · rfl
    · exact absurd (h.sessions _ _ hold') (by omega)
    · exact absurd (h.sessions _ _ hold) (by omega)
    · exact h.own k k' n hold hold'
  calls := fun t call n hc hf => by
    simp only [SplitManager.publish, List.length_append, List.length_singleton]
    exact Nat.lt_succ_of_lt (h.calls t call n hc hf)

theorem Grounded.forget (h : Grounded s) (sid : String) : Grounded (s.forget sid) where
  sessions := fun k n hk => by
    simp only [SplitManager.forget, Dict.get?_erase] at hk
    split at hk
    · cases hk
    · exact h.sessions k n hk
  own := fun k k' n hk hk' => by
    simp only [SplitManager.forget, Dict.get?_erase] at hk hk'
    split at hk
    · cases hk
    · split at hk'
      · cases hk'
      · exact h.own k k' n hk hk'
  calls := h.calls

theorem Grounded.step (h : Grounded s) {e : SplitEvent} {s' : SplitManager}
    (hs : s.step c e = some s') : Grounded s' := by
  unfold SplitManager.step at hs
  split at hs
  · cases hs; exact h.resume _ _
  · cases hs
  · cases hs
  · cases hs; exact h.lookupPrompt _ _ _ _ _
  · cases hs; exact h.lookupCached _ _ _ _
  · cases hs; exact h.setCall _ _ rfl _ (fun _ => rfl) _
  · cases hs
    unfold SplitManager.commit
    split
    · exact h.leave _ _
    · exact (h.publish _ _ _).leave _ _
  · cases hs; exact (h.forget _).leave _ _

theorem grounded_of_interleaved (h : Interleaved c s) : Grounded s :=
  Steps.inv h ⟨by simp [SplitManager.empty], by simp [SplitManager.empty],
      by simp [SplitManager.empty]⟩
    fun _ _ _ ht hs _ => ht.step hs

/-! ## 7. A call alone -/

def blank : SessionState := ⟨[], [], none, 0, [], none⟩

/-- The manager as its operations see it where no call is under way. -/
def view (s : SplitManager) : TokenStreamManager where
  sessions := s.sessions.map fun n => s.objects.getD n blank
  evicted := s.evicted
  nextId := s.objects.length

theorem Grounded.view_get? (h : Grounded s) (sid : String) :
    s.view.sessions.get? sid = s.object (s.sessions.get? sid) := by
  simp only [view, Dict.get?_map]
  cases hsid : s.sessions.get? sid with
  | none => rfl
  | some n =>
      have hn := h.sessions sid n hsid
      simp only [Option.map_some, object, Option.bind_some, List.getD_eq_getElem?_getD,
        List.getElem?_eq_getElem hn, Option.getD_some]

/-- **`build_prompt` alone**: what its lookup leaves and what it returns are those of the
    operation. -/
theorem lookupPrompt_alone (h : Grounded s) (t : Nat) (sid : String) {messages n : List Fields}
    {tools : Json} (effort : Option String) (hm : normalizeMessages messages = .ok n)
    (ht : validateTools tools = .ok ()) :
    ∃ call, (s.lookupPrompt t (some sid) messages tools effort).calls.get? t = some call ∧
      (s.lookupPrompt t (some sid) messages tools effort).outcome c call =
        .prompt (s.view.buildPrompt c (some sid) messages tools effort).1 ∧
      (s.lookupPrompt t (some sid) messages tools effort).view =
        (s.view.buildPrompt c (some sid) messages tools effort).2 := by
  refine ⟨.build sid n tools effort (s.sessions.get? sid) (s.evicted.contains sid), ?_, ?_, ?_⟩
  · simp only [lookupPrompt, hm, ht, Dict.get?_set_self]
  · simp only [lookupPrompt, hm, ht, outcome, TokenStreamManager.buildPrompt, h.view_get? sid]
    rfl
  · simp only [lookupPrompt, hm, ht, view, TokenStreamManager.buildPrompt,
      TokenStreamManager.touch, Dict.map_moveToEnd]

/-- The objects after a replay, as the sessions see them. -/
theorem map_spend {sid : String} {n : Nat} {x : SessionState} (h : Grounded s)
    (hsid : s.sessions.get? sid = some n) :
    (s.sessions.map fun j => (s.objects.set n x).getD j blank) =
      (s.sessions.map fun j => s.objects.getD j blank).set sid x := by
  have hn := h.sessions sid n hsid
  have hx : (s.objects.set n x).getD n blank = x := by
    rw [List.getD_eq_getElem?_getD, List.getElem?_set_self hn, Option.getD_some]
  rw [← Dict.set_get? (d := s.sessions.map fun j => (s.objects.set n x).getD j blank)
    (k := sid) (v := x) (by rw [Dict.get?_map, hsid, Option.map_some, hx])]
  apply Dict.ext
  simp only [Dict.set_entries, Dict.map_keys]
  split
  · simp only [Dict.map, Dict.replace, List.map_map]
    refine List.map_congr_left fun e he => ?_
    by_cases hk : e.1 = sid
    · simp [hk]
    · have hne : e.2 ≠ n := fun hen =>
        hk (h.own sid e.1 n hsid ((Dict.get?_eq_some_iff _ _ _).mpr (hen ▸ he)))
      simp only [Function.comp_apply, hk, if_false, List.getD_eq_getElem?_getD,
        List.getElem?_set_ne (Ne.symm hne)]
  · next hmem =>
    exact absurd (List.mem_map.mpr ⟨(sid, n), (Dict.get?_eq_some_iff _ _ _).mp hsid, rfl⟩) hmem

/-- **`cached_turn` alone** returns what the operation returns, and leaves what it leaves. -/
theorem cachedTurn_alone (h : Grounded s) (t : Nat) (sid : String) (messages : List Fields)
    (effort : Option String) :
    (s.lookupCached t (some sid) messages effort).outcome c
        (.cached sid messages effort (s.sessions.get? sid)) =
      .replay ((s.view.cachedTurn c (some sid) messages effort).map Prod.fst) ∧
    ∀ r m', s.view.cachedTurn c (some sid) messages effort = .ok (r, m') →
      ((s.lookupCached t (some sid) messages effort).resume c t
        (.cached sid messages effort (s.sessions.get? sid))).view = m' := by
  have hview := h.view_get? sid
  have hobj : (s.lookupCached t (some sid) messages effort).object (s.sessions.get? sid) =
      s.view.sessions.get? sid := hview.symm
  -- both read the same object, so they agree on whether the turn is repeated
  cases hrep : TokenStreamManager.repeatedTurn (s.view.sessions.get? sid) messages effort with
  | error e =>
      have hop : s.view.cachedTurn c (some sid) messages effort = .error e := by
        simp only [TokenStreamManager.cachedTurn, hrep]
        rfl
      rw [hop]
      refine ⟨?_, fun _ _ hr => by cases hr⟩
      simp only [outcome, hobj, hrep]
      rfl
  | ok found =>
    cases found with
    | none =>
        have hout : (s.lookupCached t (some sid) messages effort).outcome c
            (.cached sid messages effort (s.sessions.get? sid)) = .replay (.ok none) := by
          simp only [outcome, hobj, hrep]
        have hop : s.view.cachedTurn c (some sid) messages effort = .ok (none, s.view) := by
          simp only [TokenStreamManager.cachedTurn, hrep]
          rfl
        rw [hop]
        refine ⟨hout, fun r m' hr => ?_⟩
        cases hr
        rw [resume_unserved _ _ (by rw [hout]; exact fun _ hr => by cases hr)]
        rfl
    | some p =>
        obtain ⟨st, turn⟩ := p
        obtain ⟨hst, -, -, -⟩ := TokenStreamManager.repeatedTurn_some hrep
        obtain ⟨n, hn, hat⟩ := Option.bind_eq_some_iff.mp (hview.symm.trans hst)
        have hcached : s.view.cachedTurn c (some sid) messages effort =
            (s.view.spendReplay c sid st).bind fun m' =>
              .ok (some (TokenStreamManager.replayOf st turn), m') := by
          simp only [TokenStreamManager.cachedTurn, hrep]
          rfl
        -- the replay is spent on the object, and in the view on its copy
        by_cases hcap : c.maxTurnReplays ≤ st.replays
        · have hop : s.view.cachedTurn c (some sid) messages effort =
              refuse (.replaysSpent st.replays) := by
            rw [hcached, TokenStreamManager.spendReplay, if_pos hcap]
            rfl
          rw [hop]
          refine ⟨?_, fun _ _ hr => by cases hr⟩
          simp only [outcome, hobj, hrep, if_pos hcap]
          rfl
        · have hout : (s.lookupCached t (some sid) messages effort).outcome c
              (.cached sid messages effort (s.sessions.get? sid)) =
              .replay (.ok (some (TokenStreamManager.replayOf st turn))) := by
            simp only [outcome, hobj, hrep, if_neg hcap]
          have hspend : s.view.spendReplay c sid st = .ok
              (TokenStreamManager.touch ⟨s.view.sessions.set sid
                { st with replays := st.replays + 1 }, s.evicted, s.objects.length⟩ sid) := by
            unfold TokenStreamManager.spendReplay
            rw [if_neg hcap]
            rfl
          have hop : s.view.cachedTurn c (some sid) messages effort =
              .ok (some (TokenStreamManager.replayOf st turn),
                TokenStreamManager.touch ⟨s.view.sessions.set sid
                  { st with replays := st.replays + 1 }, s.evicted, s.objects.length⟩ sid) := by
            rw [hcached, hspend]
            rfl
          rw [hop]
          refine ⟨hout, fun r m' hr => ?_⟩
          cases hr
          rw [hn] at hout ⊢
          have hat' : (s.lookupCached t (some sid) messages effort).objects[n]? = some st := hat
          rw [resume_served _ _ hat' hout]
          simp only [view, spend, leave, touchIfCurrent, lookupCached, hn, if_true,
            TokenStreamManager.touch, Dict.map_moveToEnd, List.length_set, map_spend h hn]

/-- The eviction loops of both managers take the same sessions. -/
theorem evictWhile_view (c : ManagerConfig) (f : Nat → SessionState) : ∀ (fuel : Nat)
    (d : Dict String Nat) (ev : Dict String Unit) (id : Nat),
    TokenStreamManager.evictLoop c fuel ⟨d.map f, ev, id⟩ =
      ⟨(evictWhile c.maxSessions fuel d ev).1.map f, (evictWhile c.maxSessions fuel d ev).2.1, id⟩
  | 0, d, ev, id => rfl
  | fuel + 1, d, ev, id => by
      unfold TokenStreamManager.evictLoop evictWhile
      simp only [Dict.size_map, Dict.popFirst_map]
      split
      · cases hp : d.popFirst with
        | none => rfl
        | some p =>
            obtain ⟨⟨sid, n⟩, rest⟩ := p
            exact evictWhile_view c f fuel rest (noteEvicted c.maxSessions ev sid) id
      · rfl

/-- **`commit` alone**: its lock section publishes what the operation publishes. -/
theorem publish_alone (h : Grounded s) (sid : String) (st : SessionState)
    (turn : Option ReplayedTurn) :
    (s.publish c sid st turn).view = s.view.publish c sid st := by
  have hmap : ((s.sessions.set sid s.objects.length).map fun n => (s.objects ++ [st]).getD n blank)
      = (s.sessions.map fun n => s.objects.getD n blank).set sid st := by
    rw [Dict.map_set, List.getD_eq_getElem?_getD, List.getElem?_append_right le_rfl,
      Nat.sub_self, List.getElem?_cons_zero, Option.getD_some]
    congr 1
    apply Dict.ext
    refine List.map_congr_left fun e he => ?_
    have hlt := h.sessions e.1 e.2 ((Dict.get?_eq_some_iff _ _ _).mpr he)
    simp only [List.getD_eq_getElem?_getD, List.getElem?_append_left hlt]
  have hloop := evictWhile_view c (fun n => (s.objects ++ [st]).getD n blank)
    ((s.sessions.set sid s.objects.length).moveToEnd sid).size
    ((s.sessions.set sid s.objects.length).moveToEnd sid) (s.evicted.erase sid)
    (s.objects.length + 1)
  rw [Dict.map_moveToEnd, hmap] at hloop
  have hsize : ((s.sessions.set sid s.objects.length).moveToEnd sid).size =
      ((s.sessions.map fun n => s.objects.getD n blank).set sid st).size := by
    rw [← hmap, Dict.size_map, Dict.size_moveToEnd]
  unfold TokenStreamManager.publish
  simp only [view, publish, List.length_append, List.length_singleton]
  rw [← hsize, hloop]

/-- **`drop` alone**. -/
theorem forget_alone (sid : String) : (s.forget sid).view = s.view.drop sid := by
  simp only [view, forget, TokenStreamManager.drop, Dict.map_erase]

end SplitManager

end RolloutProxy
