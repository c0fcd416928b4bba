/-
  File:      RolloutProxy/Service/Deletion.lean
  Subject:   A DELETED SESSION: nothing is recorded for it as long as its tombstone lasts, and
             nothing of it is left once its deletion has returned.

  * `Buried`: the recorder holds nothing of a tombstoned session;
  * `Swept`: the provider holds no stream of the session but what the session tracks;
  * `deleted_stays_deleted`: both along every run, with the answers a deleted session gets.

  A tombstone can lapse while its deletion waits for a thread. A request admitted then is not
  among those the deletion waits for, and goes on behind it (`lapsed_tombstone_leaks`).
-/
import RolloutProxy.Recorder.Tombstones
import RolloutProxy.Service.Staged

namespace RolloutProxy

namespace LLMProxyServer

variable {cfg : ServerConfig} {w w' : LLMProxyServer} {e : ServerEvent}

/-! ## 1. The recorder -/

def Buried (w : LLMProxyServer) : Prop :=
  ∀ s, w.isDeleted s = true → w.recorder.Blank s

/-- An operation on one session resurrects nothing. -/
theorem Buried.touches (h : Buried w) {session : String} {r : SessionRecorder}
    (hr : SessionRecorder.Touches w.now session w.recorder r) (hnow : w'.now = w.now)
    (hrec : w'.recorder = r) : Buried w' := by
  intro s hs
  unfold isDeleted at hs
  rw [hnow, hrec, hr.tombstoned_eq] at hs
  rw [hrec]
  exact hr.blank (h s hs) fun he => he ▸ hs

theorem Buried.kept (h : Buried w) (hnow : w'.now = w.now) (hrec : w'.recorder = w.recorder) :
    Buried w' :=
  h.touches (.refl w.now "" w.recorder) hnow hrec

theorem Buried.step (h : Buried w) (hs : ServerStep cfg w e w') : Buried w' := by
  cases hs with
  | tick d hd =>
    intro s hs
    exact h s (SessionRecorder.tombstoned_mono (by simpa using hd) hs)
  | chat session agent body model hs hd hm life hl =>
    exact h.touches (w.recorder.ensureSession_touches w.now session (some model)) rfl rfl
  | record t fault i session d ht =>
    exact h.touches (w.recorder.recordCompletion_touches w.now session d fault) rfl rfl
  | mark t fault i session agent messages promptIds ids ht =>
    exact h.touches (w.recorder.markRecordingFailed_touches w.now session (some agent) messages
      promptIds ids) rfl rfl
  | sealed t fault i session r ht hr =>
    obtain ⟨x, hx, hf, rfl⟩ := SessionRecorder.finalizeSession_ok hr
    intro s hs
    have hb := h s hs
    by_cases he : s = session
    · -- a record that is sealed is not tombstoned
      have hnone := hb.record
      rw [he, hx] at hnone
      cases hnone
    · refine ⟨?_, hb.failures⟩
      change (w.recorder.putSession session _).sessions.get? s = none
      rw [SessionRecorder.putSession_get?, if_neg he]
      exact hb.record
  | delete session life hl =>
    intro s hs
    refine SessionRecorder.deleteSession_blank w.recorder w.now session s ?_
    by_cases he : s = session
    · exact .inl he
    · exact .inr (h s (SessionRecorder.tombstoned_before hs he))
  | turn n i t a stage stage' w' hp hm => exact h.kept hm.now hm.recorder
  | interrupt n t a stage w' hp hdue hi =>
    cases hi with
    | drains g life hs hw hl => exact h.kept rfl rfl
    | ends w' hm => exact h.kept hm.now hm.recorder
  | _ => exact h.kept rfl rfl

/-! ## 2. The provider -/

/-- The provider holds a stream of session `s` only while the session tracks it. -/
def Swept (w : LLMProxyServer) (s : String) : Prop :=
  ∀ agent, w.provider.Absent (streamId s agent) ∨
    streamId s agent ∈ w.life.sessionStreams.members s

/-- What is tracked stays tracked, but for a release. -/
theorem tracked_kept {l l' : Lifecycle} {le : LifeEvent} (hl : LifeStep l le l')
    (hle : ∀ d raising, le ≠ .release d raising) {s x : String}
    (h : x ∈ l.sessionStreams.members s) : x ∈ l'.sessionStreams.members s :=
  (hl.streams_kept h).resolve_right fun hr => by
    obtain ⟨d, raising, t, ids, he, -⟩ := hr.event
    exact hle d raising he

section Swept

variable {s : String}

/-- The provider appears for no stream but one that is tracked. -/
theorem Swept.kept (h : Swept w s) (hp : ∀ x, w.provider.Absent x → w'.provider.Absent x)
    (hs : ∀ x, x ∈ w.life.sessionStreams.members s → x ∈ w'.life.sessionStreams.members s) :
    Swept w' s := fun agent =>
  (h agent).imp (hp _) (hs _)

theorem Swept.moved (hid : isSessionId s = true) (hb : Bound w.life) (hset : Settled w.life s)
    (h : Swept w s) {n : Nat} {t : Task} {a : Admitted} {stage s' : TurnStage}
    (hp : w.Piece n t a stage) (hm : w.Moves n a stage s' w') : Swept w' s := by
  have hstreams : ∀ x, x ∈ w.life.sessionStreams.members s →
      x ∈ w'.life.sessionStreams.members s := by
    intro x hx
    rcases hm.life with ⟨-, hl⟩ | ⟨r, answer, -, -, hl⟩
    · exact hl ▸ hx
    · exact tracked_kept hl (fun _ _ he => by cases he) hx
  intro agent
  by_cases hx : streamId s agent = a.stream
  · -- the stream is of the pipeline's own session
    have hs : a.session = s := (streamId_inj (hb.admitted n a hp.admitted) hid hx.symm).1
    have hown := hset.running (.turn n) t a rfl hp.task hp.runs hp.admitted hs
    exact .inr (hx ▸ hstreams _ hown)
  · exact (h agent).imp (hm.provider _ hx) (hstreams _)

theorem Swept.step (hid : isSessionId s = true) (hb : Bound w.life) (hset : Settled w.life s)
    (h : Swept w s) (hs : ServerStep cfg w e w') : Swept w' s := by
  have hstreams : (∀ d raising, e ≠ .release d raising) → ∀ x,
      x ∈ w.life.sessionStreams.members s → x ∈ w'.life.sessionStreams.members s := by
    intro he x hx
    rcases hs.life with hl | ⟨le, hl, hfrom, -⟩
    · exact hl ▸ hx
    · refine tracked_kept hl (fun d raising hle => ?_) hx
      subst hle
      exact he d raising hfrom
  cases hs with
  | turn n i t a stage stage' w' hp hm => exact h.moved hid hb hset hp hm
  | interrupt n t a stage w' hp hdue hi =>
    cases hi with
    | drains g life hs hw hl => exact h.kept (fun _ hx => hx) (hstreams (by simp))
    | ends w' hm => exact h.moved hid hb hset hp hm
  | release d raising t life ht hd hl =>
    intro agent
    cases hl with
    | release _ u ids _ hu hud ha hids =>
      rw [ht] at hu
      cases hu
      rcases h agent with hx | hx
      · exact .inl (Provider.foldl_releaseSession_absent _ _ (.inr hx))
      · rcases Lifecycle.release_streams hx with hkeep | hrel
        · exact .inr hkeep
        · exact .inl (Provider.foldl_releaseSession_absent _ _ (.inl hrel))
  | capture enabled => exact h.kept (fun _ hx => hx.of_stores rfl rfl rfl rfl) (hstreams (by simp))
  | sampling overrides p hp =>
    exact h.kept (fun _ => Provider.setRuntimeSampling_absent hp) (hstreams (by simp))
  | _ => exact h.kept (fun _ hx => hx) (hstreams (by simp))

end Swept

/-! ## 3. What a deleted session is answered -/

/-- Every check of a tombstone refuses. -/
structure Refuses (cfg : ServerConfig) (w : LLMProxyServer) (session : String) : Prop where
  chat : ∀ agent body, isSessionId session = true → isSessionId agent = true →
    w.chat cfg session agent body = .error Answer.deleted.status
  /-- a pipeline that begins -/
  turn : ∀ n a i w', w.life.admitted n = some a → a.session = session →
    w.turns n = some .fresh → w.step cfg (.turn n i) = some w' →
      w'.turns n = some (.ended (some .deleted))
  /-- a request that is cancelled, or whose pipeline was -/
  leave : ∀ n t r answer, t.session = session →
    (t.due = true ∨ (w.life.tasks (.turn n)).bind (·.ending) = some .cancelled) →
      w.outcome n t = some (r, answer) → answer = some .deleted
  finalize : w.step cfg (.finalize session) = none

theorem refuses {session : String} (hd : w.isDeleted session = true) : w.Refuses cfg session where
  chat agent body hs ha := by
    unfold LLMProxyServer.chat
    simp [hs, ha, hd, Answer.status]
  turn n a i w' ha hs hfresh h := by
    have h : w.turnStep cfg n i = some w' := h
    unfold turnStep at h
    split at h
    · next t b body stage ht hb hbody hstage =>
      rw [hfresh] at hstage
      cases hstage
      rw [ha] at hb
      cases hb
      split at h
      · simp only [reduceCtorEq] at h
      · cases i with
        | parsed callId => cases h
        | go i =>
          cases i with
          | nothing =>
            simp only [advance, beginTurn, hs, hd, if_true] at h
            obtain ⟨life, hl, rfl⟩ := Option.map_eq_some_iff.mp h
            exact Function.update_self _ _ _
          | replays gone => cases h
          | answer x => cases h
    · cases h
  leave n t r answer hs hc ho := by
    unfold outcome at ho
    simp only [hs, hd, if_true] at ho
    by_cases hdue : t.due = true
    · rw [if_pos hdue] at ho
      cases ho
      rfl
    · rw [if_neg hdue, hc.resolve_left hdue] at ho
      cases ho
      rfl
  finalize := by
    unfold step LLMProxyServer.finalize
    simp [hd]

/-! ## 4. Every run -/

theorem buried_run {P : LLMProxyServer → ServerEvent → LLMProxyServer → Prop} {p : Provider}
    (h : Steps (step cfg) P (.start p) w) : w.Buried :=
  server_run (I := Buried) h (fun _ _ => ⟨rfl, rfl⟩) fun _ _ _ _ _ _ hi hs => hi.step hs

theorem swept_run {s : String} (hid : isSessionId s = true)
    (h : Steps (step cfg) (fun w _ _ => w.Timely s) (.start .empty) w) : w.Swept s := by
  have hall : Settled w.life s ∧ w.Swept s :=
    server_run (I := fun w => Settled w.life s ∧ w.Swept s) h ⟨.empty, fun _ => .inl (.empty _)⟩
      fun _ _ _ hsound _ ht hi hs =>
        ⟨hi.1.server hsound hs ht, hi.2.step hid hsound.bound hi.1 hs⟩
  exact hall.2

theorem past_run {s : String}
    (h : Steps (step cfg) (fun w _ _ => w.Timely s) (.start .empty) w) : Past w.life s := by
  have hall : Settled w.life s ∧ Past w.life s :=
    server_run (I := fun w => Settled w.life s ∧ Past w.life s) h
      ⟨.empty, fun d t ht => by cases ht⟩ fun _ _ _ hsound _ ht hi hs => by
        refine ⟨hi.1.server hsound hs ht, ?_⟩
        rcases hs.life with he | ⟨le, hl, -⟩
        · exact he ▸ hi.2
        · exact hi.2.step hsound.numbered hsound.registered hi.1 hl
  exact hall.2

/-- What is left of a session behind deletion `d`: nothing but what newer requests asked for. -/
structure Forgot (w : LLMProxyServer) (d : Nat) (session : String) : Prop where
  provider : ∀ n a, w.life.admitted n = some a → a.session = session →
    (∀ m b, w.life.admitted m = some b → b.stream = a.stream → m < d) → w.provider.Absent a.stream
  turnLocks : ∀ n a, w.life.admitted n = some a → a.session = session →
    (∀ m b, w.life.admitted m = some b → b.stream = a.stream → m < d) →
      w.life.turnLocks.get? a.stream = none
  streams : (∀ n a, w.life.admitted n = some a → a.session = session → n < d) →
    w.life.sessionStreams.get? session = none
  finalization : ∀ f, w.life.finalizationTasks.get? session = some f → d < f
  /-- nothing older is under way -/
  work : ∀ id t, id.isWork = true → id.number < d → w.life.tasks id = some t →
    t.session = session → t.done = true

theorem forgot_of {d : Nat} {t : Task} (hsound : Sound w.life) (hpast : Past w.life t.session)
    (hswept : isSessionId t.session = true → w.Swept t.session)
    (ht : w.life.tasks (.deletion d) = some t) (he : t.ending = some .returned) :
    w.Forgot d t.session := by
  have hid : ∀ n a, w.life.admitted n = some a → a.session = t.session →
      isSessionId t.session = true := fun n a ha hsess => hsess ▸ hsound.bound.admitted n a ha
  -- a stream that no newer request is for is not tracked
  have huntracked : ∀ a : Admitted, a.session = t.session →
      (∀ m b, w.life.admitted m = some b → b.stream = a.stream → m < d) →
        a.stream ∉ w.life.sessionStreams.members t.session := by
    intro a hsess hold hx
    obtain ⟨n, b, hb, hbx, hlt⟩ := hsound.forgotten.tracked d t _ ht he hx
    exact absurd (hold n b hb hbx) (Nat.lt_asymm hlt)
  refine ⟨fun n a ha hsess hold => ?_, fun n a ha hsess hold => ?_, fun hnew => ?_,
    fun f hf => hsound.forgotten.finalization d t f ht he hf,
    fun id u hwork hlt hu hsess => hpast d t ht he rfl id u hwork hu hsess hlt⟩
  · have hstream : a.stream = streamId t.session a.agent := by rw [← hsess]; rfl
    have hx := hswept (hid n a ha hsess) a.agent
    rw [← hstream] at hx
    exact hx.resolve_right (huntracked a hsess hold)
  · cases hk : w.life.turnLocks.get? a.stream with
    | none => rfl
    | some k =>
      -- a lock is there for a tracked stream only, and no other session tracks this one
      obtain ⟨s, hx⟩ := hsound.bound.turnLocks _ k hk
      obtain ⟨hs, agent, heq⟩ := hsound.bound.streams s _ hx
      have hsame : a.session = s := (streamId_inj (hsound.bound.admitted n a ha) hs heq).1
      rw [← hsame, hsess] at hx
      exact absurd hx (huntracked a hsess hold)
  · cases hs : w.life.sessionStreams.get? t.session with
    | none => rfl
    | some xs =>
      obtain ⟨n, a, ha, hsess, hlt⟩ := hsound.forgotten.streams d t xs ht he hs
      exact absurd (hnew n a ha hsess) (Nat.lt_asymm hlt)

/-- **A deleted session stays deleted.** As long as its tombstone lasts, nothing is recorded for
    it and every check refuses it. And once its deletion has returned nothing of it is left, nor
    comes back from what was under way, unless its tombstone lapsed during a deletion. -/
theorem deleted_stays_deleted (cfg : ServerConfig) :
    (∀ w, Steps (step cfg) (fun _ _ _ => True) (.start .empty) w →
      (∀ session w', w.step cfg (.delete session) = some w' → w'.isDeleted session = true) ∧
        ∀ session, w.isDeleted session = true →
          w.recorder.Blank session ∧ w.Refuses cfg session) ∧
      ∀ session w, Steps (step cfg) (fun w _ _ => w.Timely session) (.start .empty) w →
        ∀ d t, w.life.tasks (.deletion d) = some t → t.session = session →
          t.ending = some .returned → w.Forgot d session := by
  refine ⟨fun w h => ⟨fun session w' hs => ?_, fun session hd => ?_⟩,
    fun session w h d t ht hsess he => ?_⟩
  · obtain ⟨hsound, hst⟩ := sound_run h
    cases step_server hsound hst hs with
    | delete session life hl => exact w.recorder.deleteSession_tombstoned w.now session
  · exact ⟨buried_run h session hd, refuses hd⟩
  · subst hsess
    exact forgot_of (sound_run h).1 (past_run h) (fun hid => swept_run hid h) ht he

/-! ## 5. A deletion behind a thread, and a tombstone that lapses -/

/-- A server of one model, whose engine is never reached. -/
def silentServer : ServerConfig where
  provider := silentConfig
  profile _ := .ok silentModel.profile

/-- The deletion waits for the thread of a cancelled turn. -/
def patience : List ServerEvent :=
  [.chat "s" "a" repeatedArgs, .acquire 0, .turn 0 (.go .nothing), .turn 0 (.go .nothing),
    .delete "s", .cancelAll 1, .interrupt 0, .leave 0, .turn 0 (.go .nothing),
    .turn 0 (.go .nothing), .release 1 []]

theorem deleted_behind_a_thread :
    ∃ w, exec (step silentServer) (fun w _ _ => w.timely) (.start .empty) patience = some w ∧
      w.recorder.Blank "s" ∧ w.Refuses silentServer "s" ∧ w.Forgot 1 "s" := by
  have hrun : (exec (step silentServer) (fun w _ _ => w.timely) (.start .empty) patience).map
      (fun w => ((w.life.tasks (.deletion 1)).map fun t => (t.session, t.ending),
        w.isDeleted "s")) = some (some ("s", some .returned), true) := by decide +kernel
  obtain ⟨w, hw, heq⟩ := Option.map_eq_some_iff.mp hrun
  obtain ⟨ht, hd⟩ := Prod.mk.inj heq
  obtain ⟨t, ht, hts⟩ := Option.map_eq_some_iff.mp ht
  obtain ⟨hsession, hreturned⟩ := Prod.mk.inj hts
  have hsteps : Steps (step silentServer) (fun w _ _ => w.Timely "s") (.start .empty) w :=
    (timely_exec hw).mono fun _ _ _ h => h "s"
  have hfirst := (deleted_stays_deleted silentServer).1 w (hsteps.mono fun _ _ _ _ => trivial)
  obtain ⟨hblank, hrefuses⟩ := hfirst.2 "s" hd
  exact ⟨w, hw, hblank, hrefuses,
    (deleted_stays_deleted silentServer).2 "s" w hsteps 1 t ht hsession hreturned⟩

/-- Deletion 1 waits for a thread until its tombstone has lapsed. Request 2, admitted meanwhile,
    begins its turn behind the release, and deletion 3 finds no stream of it to release. -/
def lapse : List ServerEvent :=
  [.chat "s" "a" repeatedArgs, .acquire 0, .turn 0 (.go .nothing), .turn 0 (.go .nothing),
    .delete "s", .cancelAll 1, .interrupt 0, .leave 0, .tick 3600,
    .chat "s" "b" repeatedArgs, .acquire 2, .turn 0 (.go .nothing), .turn 0 (.go .nothing),
    .release 1 [], .forget 1, .turn 2 (.go .nothing), .delete "s", .cancelAll 3, .interrupt 2,
    .leave 2, .release 3 []]

/-- Deletion 3, request 2, the tombstone, and whether the provider has a lock for stream `s-b`. -/
def remains (w : LLMProxyServer) :
    Option (String × Option Ending) × Option (String × String) × Bool × Bool :=
  ((w.life.tasks (.deletion 3)).map fun t => (t.session, t.ending),
    (w.life.admitted 2).map fun a => (a.session, a.stream),
    w.isDeleted "s", (w.provider.sessionLocks.get? "s-b").isSome)

/-- The provider's lock for a stream of the session outlives the deletion. -/
theorem lapsed_tombstone_leaks :
    ¬∀ session w, Steps (step silentServer) (fun _ _ _ => True) (.start .empty) w →
      ∀ d t, w.life.tasks (.deletion d) = some t → t.session = session →
        t.ending = some .returned → w.isDeleted session = true →
          (∀ n a, w.life.admitted n = some a → a.session = session → n < d) →
            ∀ n a, w.life.admitted n = some a → a.session = session →
              w.provider.Absent a.stream := by
  intro hall
  have hrun : (exec (step silentServer) (fun _ _ _ => true) (.start .empty) lapse).map remains =
      some (some ("s", some .returned), some ("s", "s-b"), true, true) := by decide +kernel
  have hcreated : (exec (step silentServer) (fun _ _ _ => true) (.start .empty) lapse).map
      (fun w => (w.life.created, (w.life.admitted 3).isNone)) = some (4, true) := by decide +kernel
  obtain ⟨w, hw, hremains⟩ := Option.map_eq_some_iff.mp hrun
  rw [hw, Option.map_some, Option.some.injEq, Prod.mk.injEq] at hcreated
  obtain ⟨hfour, hthree⟩ := hcreated
  have hsteps : Steps (step silentServer) (fun _ _ _ => True) (.start .empty) w :=
    (exec_steps hw).mono fun _ _ _ _ => trivial
  unfold remains at hremains
  simp only [Prod.mk.injEq] at hremains
  obtain ⟨ht, ha, hd, hlock⟩ := hremains
  obtain ⟨t, ht, hts⟩ := Option.map_eq_some_iff.mp ht
  obtain ⟨a, ha, has⟩ := Option.map_eq_some_iff.mp ha
  obtain ⟨hsession, hreturned⟩ := Prod.mk.inj hts
  obtain ⟨hown, hstream⟩ := Prod.mk.inj has
  have habsent := hall "s" w hsteps 3 t ht hsession hreturned hd (fun n b hb _ => ?_) 2 a ha hown
  · have hnone := habsent.lock
    rw [hstream] at hnone
    rw [hnone] at hlock
    cases hlock
  · -- the deletion is the last that was created
    have hlt := ((sound_run hsteps).1.numbered.admitted n b hb).1
    rw [hfour] at hlt
    refine Nat.lt_of_le_of_ne (Nat.le_of_lt_succ hlt) fun hn => ?_
    rw [hn] at hb
    rw [hb] at hthree
    cases hthree

end LLMProxyServer

end RolloutProxy
