/-
  File:      RolloutProxy/Training/Grouping.lean
  Subject:   `record_to_streams` GROUPS a record's turns by agent and conversation.

  * `Grouped turns gs`: the interleaved `turns` of any number of agents, read one after the other,
    fall into the segments `gs`, in the order of their first turns.
  * `StreamsOf`: the streams of these segments, each with its role and segment index.
  * **`addTurns_grouped`**: the loop of `record_to_streams` builds exactly these streams.
  * **`recordToStreams_grouped`**: where the turns are trainable and every conversation starts
    with a prompt, the conversion succeeds and returns them.
-/
import RolloutProxy.Training.StreamShape

namespace RolloutProxy

/-- The recorded turns of one conversation of one agent. -/
structure Segment where
  agent : Option String
  turns : List CompletionRecord

/-- How interleaved turns fall into segments. -/
inductive Grouped : List CompletionRecord → List Segment → Prop where
  | start : Grouped [] []
  | opens {turns gs} (t : CompletionRecord) (h : Grouped turns gs)
      (hn : t.newConversation = true) : Grouped (turns ++ [t]) (gs ++ [⟨t.agentId, [t]⟩])
  | extends {turns gs ts gs'} (t : CompletionRecord)
      (h : Grouped turns (gs ++ ⟨t.agentId, ts⟩ :: gs')) (hn : t.newConversation = false)
      (hlast : ∀ g ∈ gs', g.agent ≠ t.agentId) :
      Grouped (turns ++ [t]) (gs ++ ⟨t.agentId, ts ++ [t]⟩ :: gs')

/-- How many of the segments belong to an agent. -/
def segmentCount (gs : List Segment) (agent : Option String) : Nat :=
  gs.countP fun g => g.agent = agent

/-- The stream of a segment with `k` earlier segments of its agent. -/
def segmentStream (sid : String) (role : String) (k : Nat) (g : Segment) : TrainingStream :=
  streamOf (openStream (.str sid) g.agent role k) g.turns

/-- The streams of the segments `gs` that come behind the segments `before`. -/
def StreamsOf (sid : String) (roles : Roles) (before : List Segment) :
    List Segment → List TrainingStream → Prop
  | [], ss => ss = []
  | g :: gs, ss => ∃ role s rest, roleOf roles g.agent = some role ∧ ss = s :: rest ∧
      s = segmentStream sid role (segmentCount before g.agent) g ∧
      StreamsOf sid roles (before ++ [g]) gs rest

/-- An agent's open stream is the one of its last segment. -/
def OpenStreams (gs : List Segment) (current : Dict (Option String) Nat) : Prop :=
  ∀ agent, match current.get? agent with
    | none => ∀ g ∈ gs, g.agent ≠ agent
    | some i => ∃ pre ts post, gs = pre ++ ⟨agent, ts⟩ :: post ∧ pre.length = i ∧
        ∀ g ∈ post, g.agent ≠ agent

/-! ## 1. Streams of segments -/

theorem StreamsOf.append {sid : String} {roles : Roles} {before gs gs' : List Segment}
    {ss : List TrainingStream} :
    StreamsOf sid roles before (gs ++ gs') ss ↔ ∃ ss₁ ss₂, ss = ss₁ ++ ss₂ ∧
      StreamsOf sid roles before gs ss₁ ∧ StreamsOf sid roles (before ++ gs) gs' ss₂ := by
  induction gs generalizing before ss with
  | nil =>
      constructor
      · intro h; exact ⟨[], ss, rfl, rfl, by simpa using h⟩
      · rintro ⟨ss₁, ss₂, rfl, h1, h2⟩
        have : ss₁ = [] := h1
        subst this
        simpa using h2
  | cons g gs ih =>
      simp only [List.cons_append, StreamsOf, ih]
      constructor
      · rintro ⟨role, s, rest, hr, rfl, hs, ss₁, ss₂, rfl, h1, h2⟩
        exact ⟨s :: ss₁, ss₂, rfl, ⟨role, s, ss₁, hr, rfl, hs, h1⟩, by simpa using h2⟩
      · rintro ⟨_, ss₂, rfl, ⟨role, s, ss₁, hr, rfl, hs, h1⟩, h2⟩
        exact ⟨role, s, ss₁ ++ ss₂, hr, rfl, hs, ss₁, ss₂, rfl, h1, by simpa using h2⟩

theorem StreamsOf.length_eq {sid : String} {roles : Roles} {before gs : List Segment}
    {ss : List TrainingStream} (h : StreamsOf sid roles before gs ss) :
    ss.length = gs.length := by
  induction gs generalizing before ss with
  | nil => have : ss = [] := h; subst this; rfl
  | cons g gs ih =>
      obtain ⟨role, s, rest, _, rfl, _, h⟩ := h
      simp [ih h]

/-- The turns of a segment do not matter to the segments behind it. -/
theorem StreamsOf.congr_before {sid : String} {roles : Roles} {before before' gs : List Segment}
    {ss : List TrainingStream} (hb : ∀ a, segmentCount before a = segmentCount before' a)
    (h : StreamsOf sid roles before gs ss) : StreamsOf sid roles before' gs ss := by
  induction gs generalizing before before' ss with
  | nil => exact h
  | cons g gs ih =>
      obtain ⟨role, s, rest, hr, rfl, hs, h⟩ := h
      refine ⟨role, s, rest, hr, rfl, by rw [hs, hb], ih (fun a => ?_) h⟩
      have := hb a
      simp only [segmentCount, List.countP_append] at this ⊢
      omega

/-- The segment index a stream was opened with. -/
theorem segmentStream_nextSegment (sid role : String) (k : Nat) (g : Segment) :
    nextSegment (segmentStream sid role k g) = k + 1 := by
  unfold segmentStream
  rw [streamOf_eq]
  simp [openStream, nextSegment]

theorem segmentStream_append (sid role : String) (k : Nat) (a : Option String)
    (ts : List CompletionRecord) (t : CompletionRecord) :
    segmentStream sid role k ⟨a, ts ++ [t]⟩ =
      extendStream t.modelDump (segmentStream sid role k ⟨a, ts⟩) := by
  simp [segmentStream, streamOf]

theorem segmentCount_eq_zero {gs : List Segment} {a : Option String}
    (h : ∀ g ∈ gs, g.agent ≠ a) : segmentCount gs a = 0 := by
  simpa [segmentCount, List.countP_eq_zero] using h

/-! ## 2. The loop -/

variable {sid : String} {roles : Roles}

theorem agentOf_modelDump (t : CompletionRecord) :
    agentOf (Fields.get t.modelDump "agent_id") = some t.agentId := by
  rw [(reads_modelDump t).agent, agentOf_agentJson]

theorem addTurns_append (json : Json) (blobs : Fields) (st : StreamsState) (l l' : List Json) :
    addTurns json roles true blobs st (l ++ l') =
      (addTurns json roles true blobs st l >>= fun st => addTurns json roles true blobs st l') := by
  induction l generalizing st with
  | nil => rfl
  | cons x l ih =>
      cases x with
      | obj turn =>
          simp only [List.cons_append, addTurns]
          cases addTurn json roles true blobs st turn with
          | error e => rfl
          | ok st' => exact ih st'
      | null | bool | int | float | str | arr => rfl

/-- A turn that opens a conversation opens a stream. -/
theorem addTurn_opens {gs : List Segment} {st : StreamsState} {t : CompletionRecord} {role : String}
    (hs : StreamsOf sid roles [] gs st.streams) (ho : OpenStreams gs st.current)
    (hr : roleOf roles t.agentId = some role) (hn : t.newConversation = true) :
    ∃ st', addTurn (.str sid) roles true [] st t.modelDump = .ok st' ∧
      StreamsOf sid roles [] (gs ++ [⟨t.agentId, [t]⟩]) st'.streams ∧
      OpenStreams (gs ++ [⟨t.agentId, [t]⟩]) st'.current := by
  have hreset : (Fields.getD t.modelDump "new_conversation" (.bool false)).truthy = true := by
    rw [(reads_modelDump t).reset, hn]; rfl
  -- the state behind it, with the segment index the agent has reached
  have key : addTurn (.str sid) roles true [] st t.modelDump =
      .ok { streams := st.streams ++
              [segmentStream sid role (segmentCount gs t.agentId) ⟨t.agentId, [t]⟩]
            current := st.current.set t.agentId st.streams.length } := by
    have hcur := ho t.agentId
    unfold addTurn
    simp only [agentOf_modelDump, hr]
    cases hc : st.current.get? t.agentId with
    | none =>
        rw [hc] at hcur
        simp only [Option.bind_none, segmentCount_eq_zero hcur]
        rfl
    | some i =>
        rw [hc] at hcur
        obtain ⟨pre, ts, post, rfl, hi, hpost⟩ := hcur
        obtain ⟨ss₁, ss₂, hss, h1, h2⟩ := StreamsOf.append.mp hs
        obtain ⟨role', s, rest, hr', rfl, hsg, _⟩ := h2
        have hlen : ss₁.length = i := by rw [h1.length_eq, hi]
        have hget : st.streams[i]? = some s := by
          rw [hss, ← hlen]; simp
        have hcount : segmentCount (pre ++ ⟨t.agentId, ts⟩ :: post) t.agentId =
            segmentCount pre t.agentId + 1 := by
          have := segmentCount_eq_zero hpost
          simp only [segmentCount, List.countP_append, List.countP_cons, decide_true, if_true] at *
          omega
        have hnext : nextSegment s = segmentCount pre t.agentId + 1 := by
          rw [hsg, List.nil_append, segmentStream_nextSegment]
        have hblob : (t.agentId.elim false fun a => Fields.has [] a) = false := by
          cases t.agentId <;> rfl
        simp only [Option.bind_some, hget, Option.map_some, hreset, if_true, Bool.not_true, hblob,
          Bool.or_self, Bool.false_eq_true, if_false, hcount, hnext]
        rfl
  refine ⟨_, key, ?_, ?_⟩
  · exact StreamsOf.append.mpr ⟨st.streams, _, rfl, hs, role, _, [], hr, rfl, rfl, rfl⟩
  · intro a
    simp only [Dict.get?_set]
    by_cases e : a = t.agentId
    · subst e
      simp only [if_true]
      exact ⟨gs, [t], [], rfl, hs.length_eq.symm, by simp⟩
    · simp only [if_neg e]
      have := ho a
      cases hc : st.current.get? a with
      | none =>
          rw [hc] at this
          simp only
          intro g hg
          rcases List.mem_append.mp hg with hg | hg
          · exact this g hg
          · rw [List.mem_singleton.mp hg]; exact Ne.symm e
      | some i =>
          rw [hc] at this
          obtain ⟨pre, ts, post, rfl, hi, hpost⟩ := this
          refine ⟨pre, ts, post ++ [⟨t.agentId, [t]⟩], by simp, hi, fun g hg => ?_⟩
          rcases List.mem_append.mp hg with hg | hg
          · exact hpost g hg
          · rw [List.mem_singleton.mp hg]; exact Ne.symm e

/-- A turn that continues its agent's conversation extends that stream. -/
theorem addTurn_extends {gs gs' : List Segment} {ts : List CompletionRecord} {st : StreamsState}
    {t : CompletionRecord} (hs : StreamsOf sid roles [] (gs ++ ⟨t.agentId, ts⟩ :: gs') st.streams)
    (ho : OpenStreams (gs ++ ⟨t.agentId, ts⟩ :: gs') st.current)
    (hn : t.newConversation = false) (hlast : ∀ g ∈ gs', g.agent ≠ t.agentId) :
    ∃ st', addTurn (.str sid) roles true [] st t.modelDump = .ok st' ∧
      StreamsOf sid roles [] (gs ++ ⟨t.agentId, ts ++ [t]⟩ :: gs') st'.streams ∧
      OpenStreams (gs ++ ⟨t.agentId, ts ++ [t]⟩ :: gs') st'.current := by
  have hreset : (Fields.getD t.modelDump "new_conversation" (.bool false)).truthy = false := by
    rw [(reads_modelDump t).reset, hn]; rfl
  obtain ⟨ss₁, ss₂, hss, h1, h2⟩ := StreamsOf.append.mp hs
  obtain ⟨role, s, rest, hr, rfl, hsg, h3⟩ := h2
  have hcur : st.current.get? t.agentId = some gs.length := by
    have := ho t.agentId
    cases hc : st.current.get? t.agentId with
    | none =>
        rw [hc] at this
        exact absurd rfl (this ⟨t.agentId, ts⟩ (by simp))
    | some i =>
        rw [hc] at this
        obtain ⟨pre, us, post, e, hi, hpost⟩ := this
        -- the last segment of the agent is found once from either side
        have : gs = pre := by
          rcases List.append_eq_append_iff.mp e with ⟨as, rfl, h⟩ | ⟨as, rfl, h⟩
          · cases as with
            | nil => simp
            | cons x as =>
                simp only [List.cons_append, List.cons.injEq] at h
                exact absurd rfl (hlast ⟨t.agentId, us⟩ (by rw [h.2]; simp))
          · cases as with
            | nil => simp
            | cons x as =>
                simp only [List.cons_append, List.cons.injEq] at h
                exact absurd rfl (hpost ⟨t.agentId, ts⟩ (by rw [h.2]; simp))
        rw [this, hi]
  have hget : st.streams[gs.length]? = some s := by
    rw [hss, ← h1.length_eq]; simp
  have key : addTurn (.str sid) roles true [] st t.modelDump =
      .ok { st with streams := st.streams.set gs.length (extendStream t.modelDump s) } := by
    have hrole : roleOf roles t.agentId = some role := hr
    unfold addTurn
    simp only [agentOf_modelDump, hrole, hcur, Option.bind_some, hget, Option.map_some, hreset,
      Bool.false_eq_true, if_false]
  refine ⟨_, key, ?_, ?_⟩
  · have hset : st.streams.set gs.length (extendStream t.modelDump s) =
        ss₁ ++ extendStream t.modelDump s :: rest := by
      rw [hss, ← h1.length_eq]; simp
    rw [hset]
    refine StreamsOf.append.mpr ⟨ss₁, _, rfl, h1, role, _, rest, hr, rfl, ?_, ?_⟩
    · rw [segmentStream_append, hsg]
    · exact h3.congr_before fun a => by simp [segmentCount, List.countP_append]
  · intro a
    have := ho a
    simp only
    cases hc : st.current.get? a with
    | none =>
        rw [hc] at this
        intro g hg
        rcases List.mem_append.mp hg with hg | hg
        · exact this g (by simp [hg])
        · rcases List.mem_cons.mp hg with rfl | hg
          · exact this ⟨t.agentId, ts⟩ (by simp)
          · exact this g (by simp [hg])
    | some i =>
        rw [hc] at this
        by_cases e : a = t.agentId
        · subst e
          rw [hcur] at hc
          cases hc
          exact ⟨gs, ts ++ [t], gs', rfl, rfl, hlast⟩
        · obtain ⟨pre, us, post, hg, hi, hpost⟩ := this
          rcases List.append_eq_append_iff.mp hg with ⟨as, rfl, h⟩ | ⟨as, rfl, h⟩
          · cases as with
            | nil =>
                simp only [List.nil_append, List.cons.injEq, Segment.mk.injEq] at h
                exact absurd h.1.1.symm e
            | cons x as =>
                simp only [List.cons_append, List.cons.injEq] at h
                obtain ⟨rfl, rfl⟩ := h
                exact ⟨gs ++ ⟨t.agentId, ts ++ [t]⟩ :: as, us, post, by simp, by simpa using hi,
                  hpost⟩
          · cases as with
            | nil =>
                simp only [List.nil_append, List.cons.injEq, Segment.mk.injEq] at h
                exact absurd h.1.1 e
            | cons x as =>
                simp only [List.cons_append, List.cons.injEq] at h
                obtain ⟨rfl, rfl⟩ := h
                refine ⟨pre, us, as ++ ⟨t.agentId, ts ++ [t]⟩ :: gs', by simp, hi, fun g hg => ?_⟩
                rcases List.mem_append.mp hg with hg | hg
                · exact hpost g (by simp [hg])
                · rcases List.mem_cons.mp hg with rfl | hg
                  · exact Ne.symm e
                  · exact hpost g (by simp [hg])

/-- **The loop of `record_to_streams` builds the streams of the segments.** -/
theorem addTurns_grouped {turns : List CompletionRecord} {gs : List Segment}
    (h : Grouped turns gs) (hroles : ∀ t ∈ turns, (roleOf roles t.agentId).isSome = true) :
    ∃ st, addTurns (.str sid) roles true [] .empty (turns.map fun t => .obj t.modelDump) = .ok st ∧
      StreamsOf sid roles [] gs st.streams ∧ OpenStreams gs st.current := by
  induction h with
  | start =>
      refine ⟨.empty, rfl, rfl, fun a => ?_⟩
      simp [StreamsState.empty]
  | opens t _ hn ih =>
      obtain ⟨st, hst, hs, ho⟩ := ih fun u hu => hroles u (by simp [hu])
      obtain ⟨role, hr⟩ := Option.isSome_iff_exists.mp (hroles t (by simp))
      obtain ⟨st', hst', hs', ho'⟩ := addTurn_opens hs ho hr hn
      refine ⟨st', ?_, hs', ho'⟩
      simp only [List.map_append, addTurns_append, hst, ok_bind, List.map_cons, List.map_nil,
        addTurns, hst']
  | «extends» t _ hn hlast ih =>
      obtain ⟨st, hst, hs, ho⟩ := ih fun u hu => hroles u (by simp [hu])
      obtain ⟨st', hst', hs', ho'⟩ := addTurn_extends hs ho hn hlast
      refine ⟨st', ?_, hs', ho'⟩
      simp only [List.map_append, addTurns_append, hst, ok_bind, List.map_cons, List.map_nil,
        addTurns, hst']

/-! ## 3. The conversion -/

/-- A segment holds turns of its agent only, and starts with the one that opened it. -/
theorem Grouped.segment {turns : List CompletionRecord} {gs : List Segment}
    (h : Grouped turns gs) : ∀ g ∈ gs, ∃ t ts, g.turns = t :: ts ∧ t.newConversation = true ∧
      ∀ u ∈ t :: ts, u ∈ turns ∧ u.agentId = g.agent := by
  induction h with
  | start => simp
  | opens t _ hn ih =>
      intro g hg
      rcases List.mem_append.mp hg with hg | hg
      · obtain ⟨u, us, e, hu, hall⟩ := ih g hg
        exact ⟨u, us, e, hu, fun v hv => ⟨by simp [(hall v hv).1], (hall v hv).2⟩⟩
      · rw [List.mem_singleton.mp hg]
        exact ⟨t, [], rfl, hn, by simp⟩
  | @«extends» turns gs ts gs' t _ hn _ ih =>
      have hkeep : ∀ g ∈ gs ++ ⟨t.agentId, ts⟩ :: gs', ∃ u us, g.turns = u :: us ∧
          u.newConversation = true ∧ ∀ v ∈ u :: us, v ∈ turns ++ [t] ∧ v.agentId = g.agent := by
        intro g hg
        obtain ⟨u, us, e, hu, hall⟩ := ih g hg
        exact ⟨u, us, e, hu, fun v hv => ⟨by simp [(hall v hv).1], (hall v hv).2⟩⟩
      intro g hg
      rcases List.mem_append.mp hg with hg | hg
      · exact hkeep g (by simp [hg])
      · rcases List.mem_cons.mp hg with rfl | hg
        · obtain ⟨u, us, e, hu, hall⟩ := hkeep ⟨t.agentId, ts⟩ (by simp)
          have e' : ts = u :: us := e
          subst e'
          refine ⟨u, us ++ [t], rfl, hu, fun v hv => ?_⟩
          rcases List.mem_cons.mp hv with rfl | hv
          · exact hall v (by simp)
          · rcases List.mem_append.mp hv with hv | hv
            · exact hall v (by simp [hv])
            · rw [List.mem_singleton.mp hv]
              simp
        · exact hkeep g (by simp [hg])

theorem Grouped.leading {turns : List CompletionRecord} {gs : List Segment}
    (h : Grouped turns gs)
    (hp : ∀ t ∈ turns, t.newConversation = true → t.promptTokenIds ≠ []) :
    Leading CompletionRecord.agentId CompletionRecord.newConversation (fun _ => False) turns := by
  induction h with
  | start => trivial
  | opens t _ hn ih =>
      rw [leading_append]
      exact ⟨ih fun u hu => hp u (by simp [hu]), fun _ => hp t (by simp) hn⟩
  | «extends» t hg hn _ ih =>
      rw [leading_append]
      refine ⟨ih fun u hu => hp u (by simp [hu]), ?_⟩
      rintro (h | h)
      · obtain ⟨u, us, _, _, hall⟩ := hg.segment _ (List.mem_append_right _ List.mem_cons_self)
        exact absurd (.inr ⟨u, (hall u (by simp)).1, (hall u (by simp)).2⟩) h
      · rw [hn] at h; cases h

theorem roleOf_named {roles : Roles} (hc : checkRoles roles = .ok ()) {agent : Option String}
    {role : String} (h : roleOf roles agent = some role) :
    isBlank role = false ∧ ∀ a, agent = some a → isBlank a = false := by
  induction roles with
  | nil => cases h
  | cons e roles ih =>
      obtain ⟨a, r⟩ := e
      unfold checkRoles at hc
      obtain ⟨_, h1, hc⟩ := bind_ok hc
      obtain ⟨_, h2, hc⟩ := bind_ok hc
      have hr : isBlank r = false := by simpa [checkName] using h2
      by_cases e : agent = a
      · subst e
        simp only [roleOf, List.lookup_cons, beq_self_eq_true, Option.some.injEq] at h
        subst h
        refine ⟨hr, fun b hb => ?_⟩
        subst hb
        simpa [checkAgentId, checkName] using h1
      · refine ih hc ?_
        have hne : (agent == a) = false := by simpa using e
        simpa [roleOf, List.lookup_cons, hne] using h

/-- The last loop accepts the streams of segments that start with a prompt. -/
theorem finishStreams_ok {before gs : List Segment} {ss : List TrainingStream}
    (hs : StreamsOf sid roles before gs ss) (hsid : isBlank sid = false)
    (hroles : checkRoles roles = .ok ())
    (hg : ∀ g ∈ gs, ∃ t ts, g.turns = t :: ts ∧ t.promptTokenIds ≠ [] ∧
      ∀ u ∈ t :: ts, u.Trainable) : finishStreams false [] ss = .ok ss := by
  induction gs generalizing before ss with
  | nil => have : ss = [] := hs; subst this; rfl
  | cons g gs ih =>
      obtain ⟨role, s, rest, hr, rfl, hsg, hrest⟩ := hs
      obtain ⟨t, ts, hts, hp, ht⟩ := hg g (by simp)
      obtain ⟨hrole, ha⟩ := roleOf_named hroles hr
      have hattach : attachBlob [] s = s := by
        rw [hsg]
        unfold attachBlob segmentStream
        rw [streamOf_eq]
        cases g.agent <;> rfl
      have hval : s.validate false = .ok () := by
        rw [hsg, segmentStream, hts]
        exact streamOf_validate _ hsid ha hrole hp ht
      have := ih hrest fun g hg' => hg g (by simp [hg'])
      simp only [finishStreams, hattach, hval, ok_bind, this]
      rfl

/-- **The conversion succeeds and returns the streams of the segments**, where the turns are
    trainable and every conversation starts with a prompt. -/
theorem recordToStreams_grouped {s : SessionRecord} {gs : List Segment}
    (h : Grouped s.turns gs) (hblobs : s.routedExperts = ∅) (hsid : isBlank s.sessionId = false)
    (hroles : checkRoles roles = .ok ())
    (hcover : ∀ t ∈ s.turns, (roleOf roles t.agentId).isSome = true)
    (ht : ∀ t ∈ s.turns, t.Trainable)
    (hp : ∀ t ∈ s.turns, t.newConversation = true → t.promptTokenIds ≠ []) :
    ∃ ss, recordToStreams s.modelDump roles true false = .ok ss ∧
      StreamsOf s.sessionId roles [] gs ss := by
  obtain ⟨st, hst, hss, _⟩ := addTurns_grouped h hcover
  have hb : s.routedExperts.entries.map (fun e => (e.1, Json.obj e.2.modelDump)) = [] := by
    rw [hblobs]; rfl
  have hval : validateRecordStructure none true false s.modelDump = .ok () :=
    validateRecordStructure_ok CompletionRecord.modelDump _ _ rfl
      (by show Json.obj _ = _; rw [hb]) (fun u _ => reads_modelDump u) ht (h.leading hp)
  have hfin := finishStreams_ok hss hsid hroles fun g hg => by
    obtain ⟨t, ts, e, hn, hall⟩ := h.segment g hg
    exact ⟨t, ts, e, hp t (hall t (by simp)).1 hn, fun u hu => ht u (hall u hu).1⟩
  refine ⟨st.streams, ?_, hss⟩
  have hname : checkName (.str s.sessionId) "session_id" = .ok () := by
    simp [checkName, guardE, hsid]
  have hturns : itemsOf (.arr (s.turns.map fun t => Json.obj t.modelDump)) =
    s.turns.map fun t => Json.obj t.modelDump := rfl
  unfold recordToStreams
  simp only [hroles, ok_bind, hval]
  simp only [SessionRecord.modelDump, Fields.getD, Fields.has, Fields.get, hb]
  simp [hname, hturns, hst, hfin]

end RolloutProxy
