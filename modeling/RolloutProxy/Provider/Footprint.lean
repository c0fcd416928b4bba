/-
  File:      RolloutProxy/Provider/Footprint.lean
  Subject:   WHAT A CALL LEAVES OF OTHER STREAMS: a stream the provider holds nothing of
             (`Absent`) stays absent, whatever is done for other streams.

  * `resume_absent`: every piece of a generation;
  * `beginParse`, `finishParse`: `parse_completion` cut at its await (`parseCompletion_cut`), and
    `finishParse_absent`;
  * `releaseSession_absent`: behind a release its stream is absent.
-/
import RolloutProxy.Provider.Direct
import RolloutProxy.Provider.Rejections
import RolloutProxy.Provider.Parse

namespace RolloutProxy

namespace Provider

/-- The provider holds nothing of a stream. -/
structure Absent (p : Provider) (x : String) : Prop where
  model : p.sessionModels.get? x = none
  lock : p.sessionLocks.get? x = none
  rejected : p.rejectedTurns.get? x = none
  stream : ∀ profile, p.streamState profile x = none

theorem Absent.empty (x : String) : Absent .empty x := ⟨rfl, rfl, rfl, fun _ => rfl⟩

variable {cfg : ProviderConfig} {p q : Provider} {sid x : String} {g : Generation}

theorem Absent.of_stores (h : p.Absent x) (hm : q.sessionModels = p.sessionModels)
    (hl : q.sessionLocks = p.sessionLocks) (hr : q.rejectedTurns = p.rejectedTurns)
    (hs : q.managers = p.managers) : q.Absent x where
  model := hm ▸ h.model
  lock := hl ▸ h.lock
  rejected := hr ▸ h.rejected
  stream profile := (SameStreams.of_managers hs profile x).trans (h.stream profile)

theorem setRuntimeSampling_absent {overrides : Json}
    (h : p.setRuntimeSampling cfg overrides = .ok q) (hp : p.Absent x) : q.Absent x := by
  unfold setRuntimeSampling at h
  cases hv : validateSamplingOverrides cfg.py "sampling_overrides" overrides with
  | error m =>
    rw [hv] at h
    cases h
  | ok v =>
    rw [hv] at h
    cases h
    exact hp.of_stores rfl rfl rfl rfl

/-! ## 1. Releases and locks -/

theorem releaseSession_streamState (p : Provider) (sid profile x : String) :
    (p.releaseSession sid).streamState profile x =
      if x = sid then none else p.streamState profile x := by
  unfold streamState manager
  simp only [releaseSession, Dict.get?_map]
  cases p.managers.get? profile with
  | none => split <;> rfl
  | some m => exact TokenStreamManager.drop_get? m sid x

/-- **A released stream is absent**, and no other stream appears. -/
theorem releaseSession_absent (p : Provider) (sid x : String) (h : x = sid ∨ p.Absent x) :
    (p.releaseSession sid).Absent x := by
  by_cases hx : x = sid
  · subst hx
    refine ⟨Dict.get?_erase_self _ _, Dict.get?_erase_self _ _, Dict.get?_erase_self _ _, ?_⟩
    intro profile
    rw [releaseSession_streamState, if_pos rfl]
  · have hp := h.resolve_left hx
    refine ⟨?_, ?_, ?_, fun profile => ?_⟩
    · exact (Dict.get?_erase_ne _ hx).trans hp.model
    · exact (Dict.get?_erase_ne _ hx).trans hp.lock
    · exact (Dict.get?_erase_ne _ hx).trans hp.rejected
    · rw [releaseSession_streamState, if_neg hx, hp.stream]

theorem foldl_releaseSession_absent (xs : List String) (p : Provider) {x : String}
    (h : x ∈ xs ∨ p.Absent x) : (xs.foldl (fun p x => p.releaseSession x) p).Absent x := by
  induction xs generalizing p with
  | nil => exact h.resolve_left List.not_mem_nil
  | cons y xs ih =>
    refine ih _ ?_
    rcases h with h | h
    · rcases List.mem_cons.mp h with rfl | h
      · exact .inr (releaseSession_absent p x x (.inl rfl))
      · exact .inl h
    · exact .inr (releaseSession_absent p y x (.inr h))

theorem sessionLock_absent (hx : x ≠ sid) (h : p.Absent x) : (p.sessionLock sid).Absent x := by
  unfold sessionLock
  split
  · exact h
  · exact ⟨h.model, (Dict.get?_set_ne _ _ hx).trans h.lock, h.rejected, h.stream⟩

/-! ## 2. The pieces of a generation -/

/-- The engine is called for the stream itself. -/
def OwnCall (sid : String) (stage : Stage) : Prop :=
  match stage with
  | .calling c | .decoding c _ => c.sid = sid
  | _ => True

/-- The locks are as they were, and no stream but `sid` appears. -/
structure OwnStream (sid : String) (p q : Provider) : Prop where
  locks : q.sessionLocks = p.sessionLocks
  streams : ∀ profile x, x ≠ sid → p.streamState profile x = none →
    q.streamState profile x = none

namespace OwnStream

theorem refl (sid : String) (p : Provider) : OwnStream sid p p := ⟨rfl, fun _ _ _ h => h⟩

theorem of_managers (hl : q.sessionLocks = p.sessionLocks) (hm : q.managers = p.managers) :
    OwnStream sid p q := ⟨hl, fun profile x _ h => (SameStreams.of_managers hm profile x).trans h⟩

theorem setManager {profile : String} {m : TokenStreamManager}
    (h : ∀ k, k ≠ sid → (p.manager profile).sessions.get? k = none → m.sessions.get? k = none) :
    OwnStream sid p (p.setManager profile m) where
  locks := rfl
  streams k x hx hp := by
    rw [streamState_setManager]
    split
    · next hk =>
      subst hk
      exact h x hx hp
    · exact hp

theorem afterPin (pinned : Option String) :
    OwnStream sid p (p.afterPin cfg sid g pinned).2 := by
  have hpin : ∀ pin, OwnStream sid p (p.setPin sid pin) := by
    intro pin
    cases pin with
    | none => exact refl sid p
    | some name => exact of_managers rfl rfl
  unfold Provider.afterPin
  split
  · exact refl sid p
  · split <;> exact hpin _

theorem serveFound (c : ManagerConfig) (m : TokenStreamManager) (found : Option SessionState)
    (messages : List Fields) (effort : Option String) (gone : Nat) (k : String) (hk : k ≠ sid) :
    (m.serveFound c sid found messages effort gone).2.sessions.get? k = m.sessions.get? k := by
  unfold TokenStreamManager.serveFound
  split
  · rfl
  · rfl
  · split
    · split
      · rfl
      · split
        · rfl
        · next m' hm =>
          obtain ⟨-, -, -, hget⟩ := TokenStreamManager.spendReplay_ok _ _ hm
          rw [hget, if_neg hk]
    · split <;> rfl

theorem afterLookup (r : ResolvedModel) (effort : Option String) (found : Option SessionState)
    (gone : Nat) : OwnStream sid p (p.afterLookup sid g r effort found gone).2 := by
  have hserve := @serveFound sid r.streams (p.manager r.profile.name) found g.args.messages effort
    gone
  unfold Provider.afterLookup
  split <;> next heq =>
    rw [heq] at hserve
    exact setManager fun k hk hp => (hserve k hk).trans hp

theorem afterBuild (r : ResolvedModel) (effort : Option String) :
    OwnStream sid p (p.afterBuild cfg sid g r effort).2 := by
  have hb : OwnStream sid p (p.buildPrompt r sid g.args.messages g.args.tools effort).2 :=
    setManager fun k _ hp => (TokenStreamManager.buildPrompt_get? _ _ _ _ _ _ k).trans hp
  unfold Provider.afterBuild
  split
  · next heq =>
    rw [heq] at hb
    exact hb
  · next heq =>
    rw [heq] at hb
    split <;> exact hb

theorem afterAnswer (c : Pending) (a : EngineAnswer) :
    OwnStream sid p (p.afterAnswer cfg c a).2 := by
  have hnote : ∀ e, OwnStream sid p (p.noteEngineRejection c.sid c.messages e c.effort).2 := by
    intro e
    refine of_managers ?_ (noteEngineRejection_managers _ _ _ _)
    unfold noteEngineRejection
    split
    · rfl
    · split <;> rfl
  have haccept : OwnStream sid p (p.acceptAnswer cfg c a).2 := by
    unfold acceptAnswer
    split
    · exact hnote _
    · simp only
      split <;> exact of_managers rfl rfl
  unfold Provider.afterAnswer
  split <;> next heq =>
    rw [heq] at haccept
    exact haccept

theorem afterDecode {c : Pending} (s : Sampled) (hc : c.sid = sid) :
    OwnStream sid p (p.afterDecode c s).2 := by
  unfold Provider.afterDecode
  split
  · exact refl sid p
  · next text _ =>
    obtain ⟨out, q, hout⟩ : ∃ out q, p.commitSampled c s text = (out, q) := ⟨_, _, rfl⟩
    simp only [hout]
    have hlocks : q.sessionLocks = p.sessionLocks := by
      have hq : (p.commitSampled c s text).2 = q := congrArg Prod.snd hout
      rw [← hq]
      unfold commitSampled
      simp only
      split
      · rfl
      · split <;> rfl
    rcases commitSampled_cases hout with ⟨-, -, rfl⟩ | ⟨-, rfl⟩ | ⟨-, hcommit, -⟩
    · exact refl sid q
    · exact refl sid q
    · refine ⟨hlocks, fun profile x hx hp => ?_⟩
      cases hst : q.streamState profile x with
      | none => rfl
      | some st =>
        have hne : (profile, x) ≠ (c.model.profile.name, c.sid) := fun he =>
          hx ((congrArg Prod.snd he).trans hc)
        rw [hcommit.others profile x st hne hst] at hp
        cases hp

theorem resume {i : Awaited} {n : Next} (hg : OwnCall sid g.stage)
    (h : p.resume cfg sid g i = some (n, q)) : OwnStream sid p q := by
  have hsnd : ∀ {y : Next × Provider}, some y = some (n, q) → y.2 = q := fun e => by
    cases e
    rfl
  unfold Provider.resume at h
  cases i with
  | nothing =>
    simp only at h
    split at h
    · rw [← hsnd h]
      exact refl sid p
    · rw [← hsnd h]
      exact afterPin _
    · rw [← hsnd h]
      exact refl sid p
    · rw [← hsnd h]
      exact refl sid p
    · rw [← hsnd h]
      exact refl sid p
    · rw [← hsnd h]
      exact afterBuild _ _
    · next c s hst =>
      rw [← hsnd h]
      rw [hst] at hg
      exact afterDecode s hg
    · cases h
  | replays gone =>
    simp only at h
    split at h
    · rw [← hsnd h]
      exact afterLookup _ _ _ _
    · cases h
  | answer a =>
    simp only at h
    split at h
    · rw [← hsnd h]
      exact afterAnswer _ _
    · cases h

end OwnStream

/-- **A piece of a generation** leaves every other stream absent that was. -/
theorem resume_absent {i : Awaited} {n : Next} (hx : x ≠ sid) (hg : OwnCall sid g.stage)
    (h : p.resume cfg sid g i = some (n, q)) (hp : p.Absent x) : q.Absent x where
  model := (resume_pins hx h).trans hp.model
  lock := by
    rw [(OwnStream.resume hg h).locks]
    exact hp.lock
  rejected := by
    refine (resume_elsewhere hx h fun c hc => ?_).trans hp.rejected
    rw [hc] at hg
    exact hg
  stream profile := (OwnStream.resume hg h).streams profile x hx (hp.stream profile)

/-- A generation calls the engine for its own stream. -/
theorem resume_ownCall {i : Awaited} {stage : Stage} (hg : OwnCall sid g.stage)
    (h : p.resume cfg sid g i = some (.awaits stage, q)) : OwnCall sid stage := by
  cases stage with
  | calling c =>
    obtain ⟨r, effort, -, hc, -⟩ := resume_calling h
    exact hc
  | decoding c s =>
    unfold resume at h
    cases i with
    | nothing =>
      simp only at h
      split at h
      · cases h
      · unfold afterPin at h
        repeat' split at h
        all_goals cases h
      · cases h
      · cases h
      · unfold afterMiss at h
        repeat' split at h
        all_goals cases h
      · unfold afterBuild at h
        repeat' split at h
        all_goals cases h
      · unfold afterDecode at h
        repeat' split at h
        all_goals cases h
      · cases h
    | replays gone =>
      simp only at h
      split at h
      · unfold afterLookup at h
        repeat' split at h
        all_goals cases h
      · cases h
    | answer a =>
      simp only at h
      split at h
      · next c' hc =>
        unfold afterAnswer at h
        split at h
        · cases h
        · cases h
          rw [hc] at hg
          exact hg
      · cases h
  | _ => exact trivial

/-! ## 3. The pieces of a parse -/

/-- Where `parse_completion` stands at its await. -/
inductive Parsing where
  | done (result : Except PyError ParsedCompletion)
  | decoding (parser : ToolParser) (r : ResolvedModel) (turn : Option CommittedTurn)

/-- `parse_completion` up to its await. -/
def beginParse (cfg : ProviderConfig) (p : Provider) (sid : String) (ids : List Int)
    (completionText finishReason : String) : Parsing :=
  match p.sessionModels.get? sid with
  | none => .done (.ok ⟨some completionText, none, finishReason, none⟩)
  | some name =>
    if name = "" then .done (.ok ⟨some completionText, none, finishReason, none⟩) else
    match cfg.resolve name with
    | .error e => .done (.error e)
    | .ok r =>
      let turn := (p.manager r.profile.name).committedTurn sid ids
      match turn.bind (·.parsedCompletion) with
      | some parsed => .done (.ok parsed)
      | none =>
        match r.toolParser with
        | none => .done (.ok ⟨some completionText, none, finishReason, none⟩)
        | some parser => .decoding parser r turn

/-- The turn object with this identity, where the stream's state still is that object. -/
def turnObject (p : Provider) (profile sid : String) (id : Nat) : Option CommittedTurn :=
  match p.streamState profile sid with
  | none => none
  | some st => st.lastTurn.filter fun t => t.id = id

/-- `parse_completion` behind its await: published once, also where another parser was first. -/
def finishParse (p : Provider) (parser : ToolParser) (r : ResolvedModel)
    (turn : Option CommittedTurn) (sid : String) (ids : List Int)
    (completionText finishReason : String) (tools : Json) (callId : Nat → String) :
    Except PyError ParsedCompletion × Provider :=
  match parser ids (turn.elim tools (·.tools)) completionText with
  | .error e => (.error e, p)
  | .ok decoded =>
    let result := parsedResult decoded finishReason callId
    match turn.bind fun turn => p.turnObject r.profile.name sid turn.id with
    | none => (.ok result, p)
    | some turn =>
      match turn.parsedCompletion with
      | some parsed => (.ok parsed, p)
      | none => (.ok result,
          p.setManager r.profile.name ((p.manager r.profile.name).setParsed sid turn.id result))

theorem turnObject_committed {profile : String} {ids : List Int} {turn : CommittedTurn}
    (h : (p.manager profile).committedTurn sid ids = some turn) :
    p.turnObject profile sid turn.id = some turn := by
  unfold TokenStreamManager.committedTurn at h
  unfold turnObject streamState
  cases hst : (p.manager profile).sessions.get? sid with
  | none =>
    rw [hst] at h
    cases h
  | some st =>
    simp only [hst] at h
    cases ht : st.lastTurn with
    | none =>
      rw [ht] at h
      cases h
    | some t =>
      simp only [ht] at h
      split at h
      · cases h
      · cases h
        simp [ht, Option.filter]

/-- **With nothing between them** the two pieces are the parse. -/
theorem parseCompletion_cut (cfg : ProviderConfig) (p : Provider) (sid : String) (ids : List Int)
    (completionText finishReason : String) (tools : Json) (callId : Nat → String) :
    p.parseCompletion cfg (some sid) ids completionText finishReason tools callId =
      match p.beginParse cfg sid ids completionText finishReason with
      | .done result => (result, p)
      | .decoding parser r turn =>
        p.finishParse parser r turn sid ids completionText finishReason tools callId := by
  unfold parseCompletion beginParse
  simp only
  cases p.sessionModels.get? sid with
  | none => rfl
  | some name =>
    simp only
    split
    · rfl
    · cases cfg.resolve name with
      | error e => rfl
      | ok r =>
        unfold parseWith
        simp only
        cases hturn : (p.manager r.profile.name).committedTurn sid ids with
        | none =>
          simp only [Option.bind_none]
          cases r.toolParser with
          | none => rfl
          | some parser =>
            simp only
            unfold finishParse
            cases parser ids _ completionText <;> rfl
        | some turn =>
          simp only [Option.bind_some]
          cases hparsed : turn.parsedCompletion with
          | some parsed => rfl
          | none =>
            simp only
            cases r.toolParser with
            | none => rfl
            | some parser =>
              simp only
              unfold finishParse
              cases parser ids _ completionText with
              | error e => rfl
              | ok decoded =>
                simp only [Option.bind_some, turnObject_committed hturn, hparsed]

/-- **A parse** brings no stream into being. -/
theorem finishParse_absent {parser : ToolParser} {r : ResolvedModel} {turn : Option CommittedTurn}
    {ids : List Int} {completionText finishReason : String} {tools : Json} {callId : Nat → String}
    {out : Except PyError ParsedCompletion} (hp : p.Absent x)
    (h : p.finishParse parser r turn sid ids completionText finishReason tools callId = (out, q)) :
    q.Absent x := by
  unfold finishParse at h
  split at h
  · cases h
    exact hp
  · simp only at h
    split at h
    · cases h
      exact hp
    · split at h
      · cases h
        exact hp
      · cases h
        refine ⟨hp.model, hp.lock, hp.rejected, fun profile => ?_⟩
        rw [streamState_setManager]
        split
        · next hk =>
          subst hk
          have hnone : (p.manager r.profile.name).sessions.get? x = none := hp.stream _
          unfold TokenStreamManager.setParsed
          split
          · exact hnone
          · next st hst =>
            split
            · exact hnone
            · split
              · rw [Dict.get?_set]
                split
                · next hx =>
                  rw [hx, hst] at hnone
                  cases hnone
                · exact hnone
              · exact hnone
        · exact hp.stream profile

end Provider

end RolloutProxy
