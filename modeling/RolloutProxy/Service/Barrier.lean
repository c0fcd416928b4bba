/-
  File:      RolloutProxy/Service/Barrier.lean
  Subject:   FINALIZATION IS A BARRIER, from the opening of a session up to its deletion.

  * `Opened`: a session of which nothing is left, as at the server's start (`Opened.start`) and
    where a tombstone lapses (`Opened.lapsed`); `Undeleted`: no deletion came for it since;
  * `Recorded`: whoever works on the session's record is waited for by a pipeline, and a turn that
    was answered is in the record;
  * `Sealing`: the threads that seal, and the finalizations they belong to;
  * `Barred`: where the session's finalization stands, and what it says about the record;
  * `failed_run`: a failure that was marked is unresolved, or its turn was recorded since;
  * `still`: behind the barrier nothing changes the record.

  A thread that a deletion left behind can still append to the record of a session opened again
  (`sealed_record_grows`). And a turn whose recording failed is missing where an older mark of its
  agent was cleared (`lost_turn_hidden`).
-/
import RolloutProxy.Recorder.Growth
import RolloutProxy.Service.Deletion

namespace RolloutProxy

/-- The session whose record the work of a thread is on. -/
def ThreadWork.edits : ThreadWork → Option String
  | .record session _ | .mark session _ _ _ _ => some session
  | .sealing _ | .update _ _ => none

/-- The thread a stage waits for. -/
def TurnStage.thread (n : Nat) : TurnStage → Option ThreadId
  | .recording _ _ => some (.record n)
  | .marking _ => some (.mark n)
  | _ => none

namespace LLMProxyServer

variable {cfg : ServerConfig} {w w' : LLMProxyServer} {e : ServerEvent} {s : String} {k : Nat}

/-! ## 1. A session that is not deleted -/

/-- Nothing of the session is there: no task or thread is at work for it, no tombstone lasts, and
    its record is open. -/
structure Opened (w : LLMProxyServer) (s : String) : Prop where
  tasks : ∀ id t, w.life.tasks id = some t → t.session = s → t.done = true
  threads : ∀ id work, w.threads id = some (.running work) →
    work.edits ≠ some s ∧ work ≠ .sealing s
  tombstone : w.isDeleted s = false
  registered : w.life.finalizationTasks.get? s = none
  completed : (w.recorder.sessionFor s).completed = false

theorem Opened.start (p : Provider) (s : String) : Opened (.start p) s :=
  ⟨(fun _ _ h => by cases h), (fun _ _ h => by cases h), rfl, rfl, rfl⟩

/-- A session opens where its tombstone lapses, if nothing was left at work behind it. -/
theorem Opened.lapsed {P : LLMProxyServer → ServerEvent → LLMProxyServer → Prop} {p : Provider}
    (hrun : Steps (step cfg) P (.start p) w) (hdel : w.isDeleted s = true)
    (htasks : ∀ id t, w.life.tasks id = some t → t.session = s → t.done = true)
    (hthreads : ∀ id work, w.threads id = some (.running work) →
      work.edits ≠ some s ∧ work ≠ .sealing s)
    (hreg : w.life.finalizationTasks.get? s = none) (d : Rat)
    (hlapsed : ({ w with now := w.now + d } : LLMProxyServer).isDeleted s = false) :
    Opened { w with now := w.now + d } s where
  tasks := htasks
  threads := hthreads
  tombstone := hlapsed
  registered := hreg
  completed := by
    change (w.recorder.sessionFor s).completed = false
    unfold SessionRecorder.sessionFor
    rw [(buried_run hrun s hdel).record]
    rfl

/-- Since `k` tasks were created the session was not deleted. -/
structure Undeleted (w : LLMProxyServer) (s : String) (k : Nat) : Prop where
  created : k ≤ w.life.created
  deletion : ∀ d t, w.life.tasks (.deletion d) = some t → t.session = s → t.done = true
  tombstone : w.isDeleted s = false
  /-- what finalized the session before is over, and what does now is not cancelled -/
  before : ∀ f t, w.life.tasks (.finalization f) = some t → t.session = s → f < k → t.done = true
  finalization : ∀ f t, w.life.tasks (.finalization f) = some t → t.session = s → k ≤ f →
    t.due = false

namespace Undeleted

theorem start (hsound : Sound w.life) (h : Opened w s) : Undeleted w s w.life.created where
  created := le_refl _
  deletion d t ht hts := h.tasks (.deletion d) t ht hts
  tombstone := h.tombstone
  before f t ht hts _ := h.tasks (.finalization f) t ht hts
  finalization f t ht _ hk :=
    absurd (hsound.numbered.tasks (.finalization f) t ht) (Nat.not_lt.mpr hk)

/-- No pipeline of the session is cancelled. -/
theorem turn (hsound : Sound w.life) (h : Undeleted w s k) {n : Nat} {t : Task}
    (ht : w.life.tasks (.turn n) = some t) (hd : t.done = false) (hs : t.session = s) :
    t.due = false := by
  cases hdue : t.due with
  | false => rfl
  | true =>
    obtain ⟨d, u, ids, hu, hud, hus, -⟩ := hsound.interrupted.by_deletion n t ht hd (.inl hdue)
    have hdone := h.deletion d u hu (hus.trans hs)
    rw [hud] at hdone
    cases hdone

/-- Nothing of the session is released. -/
theorem unreleased (h : Undeleted w s k) {le : LifeEvent} : ¬ Releases w.life le s := fun hr => by
  obtain ⟨d, raising, t, ids, -, ht, hd, hs, -⟩ := hr.event
  have hdone := h.deletion d t ht hs
  rw [hd] at hdone
  cases hdone

/-- A task that was over is over. -/
theorem over_after {l l' : Lifecycle} {le : LifeEvent} (hl : LifeStep l le l') {id : TaskId}
    {t' : Task} (ht' : l'.tasks id = some t') (hnew : ¬ Starts l le id t'.session)
    (hold : ∀ t, l.tasks id = some t → t.session = t'.session → t.done = true) :
    t'.done = true := by
  rcases hl.task_before ht' with ⟨hstart, -⟩ | ⟨t, ht, he, hrun⟩
  · exact absurd hstart hnew
  · have hdone := hold t ht he
    cases hd : t'.done with
    | true => rfl
    | false =>
      rw [hrun hd] at hdone
      cases hdone

theorem deletion_step (h : Undeleted w s k) (hs : ServerStep cfg w e w') (hne : e ≠ .delete s) :
    ∀ d t, w'.life.tasks (.deletion d) = some t → t.session = s → t.done = true := by
  intro d t' ht' hts
  rcases hs.life with he | ⟨le, hl, hfrom, -⟩
  · exact h.deletion d t' (he ▸ ht') hts
  · refine over_after hl ht' (fun hstart => ?_) fun t ht he => h.deletion d t ht (he.trans hts)
    rw [hts] at hstart
    cases hstart with
    | deletion _ _ => exact hne hfrom

theorem before_step (h : Undeleted w s k) (hs : ServerStep cfg w e w') :
    ∀ f t, w'.life.tasks (.finalization f) = some t → t.session = s → f < k → t.done = true := by
  intro f t' ht' hts hk
  rcases hs.life with he | ⟨le, hl, -⟩
  · exact h.before f t' (he ▸ ht') hts hk
  · refine over_after hl ht' (fun hstart => ?_) fun t ht he => h.before f t ht (he.trans hts) hk
    -- a new finalization has a number of this life
    cases hstart with
    | finalization _ _ => exact Nat.not_le.mpr hk h.created

theorem finalization_step (hsound : Sound w.life) (h : Undeleted w s k)
    (hs : ServerStep cfg w e w') :
    ∀ f t, w'.life.tasks (.finalization f) = some t → t.session = s → k ≤ f → t.due = false := by
  intro f t' ht' hts hk
  rcases hs.life with he | ⟨le, hl, -⟩
  · exact h.finalization f t' (he ▸ ht') hts hk
  · cases hl.task (.finalization f) with
    | kept hkept => exact h.finalization f t' (hkept.symm.trans ht') hts hk
    | starts session hstart hnew =>
      rw [ht'] at hnew
      cases hnew
      rfl
    | cancelled t ht hnew hc =>
      rw [ht'] at hnew
      cases hnew
      rw [Task.cancel_session] at hts
      cases hc with
      | deletion d u _ hu hud ha hid =>
        have hus : t.session = u.session := by
          rcases List.mem_append.mp hid with hm | hm
          · obtain ⟨v, hv, hvs⟩ := hsound.tracked.session _ _ hm
            rw [ht] at hv
            cases hv
            exact hvs
          · obtain ⟨f', hf', he⟩ : ∃ f', w.life.finalizationTasks.get? u.session = some f' ∧
                TaskId.finalization f' = .finalization f := by simpa using hm
            cases he
            obtain ⟨v, hv, hvs⟩ := hsound.numbered.finalization _ f hf'
            rw [ht] at hv
            cases hv
            exact hvs
        have hdone := h.deletion d u hu (hus.symm.trans hts)
        rw [hud] at hdone
        cases hdone
    | interrupted n t hid _ _ _ _ _ => cases hid
    | ends t r ht hd hend hnew =>
      rw [ht'] at hnew
      cases hnew
      rfl

theorem tombstone_step (h : Undeleted w s k) (hs : ServerStep cfg w e w') (hne : e ≠ .delete s) :
    w'.isDeleted s = false := by
  have ht : w.recorder.tombstoned w.now s = false := h.tombstone
  cases hs with
  | chat session agent body model hs hd hm life hl =>
    exact ((w.recorder.ensureSession_touches w.now session (some model)).tombstoned_eq _ s).trans ht
  | record j fault i session d hrun =>
    exact ((w.recorder.recordCompletion_touches w.now session d fault).tombstoned_eq _ s).trans ht
  | mark j fault i session agent messages promptIds ids hrun =>
    exact ((w.recorder.markRecordingFailed_touches w.now session (some agent) messages promptIds
      ids).tombstoned_eq _ s).trans ht
  | sealed j fault i session r hrun hr =>
    obtain ⟨x, -, -, rfl⟩ := SessionRecorder.finalizeSession_ok hr
    exact ht
  | delete session life hl =>
    refine eq_false_of_ne_true fun htrue => ?_
    rw [SessionRecorder.tombstoned_before htrue fun he => hne (by rw [he])] at ht
    cases ht
  | tick d hd =>
    refine eq_false_of_ne_true fun htrue => ?_
    rw [SessionRecorder.tombstoned_mono (le_add_of_nonneg_right hd) htrue] at ht
    cases ht
  | turn n i t a stage stage' w' hp hm =>
    unfold LLMProxyServer.isDeleted
    rw [hm.recorder, hm.now]
    exact ht
  | interrupt n t a stage w' hp hdue hi =>
    cases hi with
    | drains g life hs hw hl => exact ht
    | ends w' hm =>
      unfold LLMProxyServer.isDeleted
      rw [hm.recorder, hm.now]
      exact ht
  | _ => exact ht

theorem step (hsound : Sound w.life) (h : Undeleted w s k) (hs : ServerStep cfg w e w')
    (hne : e ≠ .delete s) : Undeleted w' s k where
  created := by
    rcases hs.life with he | ⟨le, hl, -⟩
    · exact he ▸ h.created
    · exact h.created.trans hl.created_le
  deletion := h.deletion_step hs hne
  tombstone := h.tombstone_step hs hne
  before := h.before_step hs
  finalization := h.finalization_step hsound hs

end Undeleted

/-! ## 2. The record and the pipelines that wait for it -/

/-- A pipeline that waits for a thread goes on behind it only. -/
theorem turnStep_recording {n : Nat} {i : TurnInput} {g : Generated} {parsed : ParsedCompletion}
    (hs : w.turns n = some (.recording g parsed)) (h : w.turnStep cfg n i = some w') :
    w.threads (.record n) = some (.finished (.ok ())) ∧
        w'.turns n = some (.ended (some (.served g parsed))) ∨
      ∃ x, w.threads (.record n) = some (.finished (.error x)) ∧
        w'.turns n = some (.marking x) := by
  unfold turnStep at h
  split at h
  · next t a body stage ht ha hbody hstage =>
    rw [hs] at hstage
    cases hstage
    split at h
    · cases h
    · unfold advance at h
      split at h
      · next he => cases he
      · next he => cases he
      · next he => cases he
      · next he => cases he
      · next he =>
        cases he
        split at h
        · next hthread =>
          obtain ⟨life, hl, rfl⟩ := Option.map_eq_some_iff.mp h
          exact .inl ⟨hthread, Function.update_self _ _ _⟩
        · next x hthread =>
          cases h
          exact .inr ⟨x, hthread, Function.update_self _ _ _⟩
        · cases h
      · next he => cases he
      · cases h
  · cases h

theorem turnStep_marking {n : Nat} {i : TurnInput} {x : PyError}
    (hs : w.turns n = some (.marking x)) (h : w.turnStep cfg n i = some w') :
    ∃ r, w.threads (.mark n) = some (.finished r) := by
  unfold turnStep at h
  split at h
  · next t a body stage ht ha hbody hstage =>
    rw [hs] at hstage
    cases hstage
    split at h
    · cases h
    · unfold advance at h
      split at h
      · next he => cases he
      · next he => cases he
      · next he => cases he
      · next he => cases he
      · next he => cases he
      · next he =>
        cases he
        split at h
        · next hthread => exact ⟨_, hthread⟩
        · next hthread => exact ⟨_, hthread⟩
        · cases h
      · cases h
  · cases h

theorem turnStep_thread {n : Nat} {i : TurnInput} {stage : TurnStage} {id : ThreadId}
    (hs : w.turns n = some stage) (hid : stage.thread n = some id)
    (h : w.turnStep cfg n i = some w') : ∃ r, w.threads id = some (.finished r) := by
  cases stage with
  | recording g parsed =>
    cases hid
    rcases turnStep_recording hs h with ⟨hthread, -⟩ | ⟨x, hthread, -⟩
    · exact ⟨_, hthread⟩
    · exact ⟨_, hthread⟩
  | marking x =>
    cases hid
    exact turnStep_marking hs h
  | _ => cases hid

/-- What is recorded of the pipelines numbered from `k` on. -/
structure Recorded (w : LLMProxyServer) (s : String) (k : Nat) : Prop where
  /-- a thread at work on the record is waited for by a pipeline of the session -/
  waiting : ∀ id work, w.threads id = some (.running work) → work.edits = some s →
    ∃ n stage t, w.turns n = some stage ∧ stage.thread n = some id ∧
      w.life.tasks (.turn n) = some t ∧ t.session = s
  recorded : ∀ n a g parsed, k ≤ n → w.life.admitted n = some a → a.session = s →
    w.turns n = some (.recording g parsed) →
      (∃ d, w.threads (.record n) = some (.running (.record s d)) ∧ d.agentId = some a.agent ∧
        d.tokenIds = g.tokenIds) ∨
      (∃ x, w.threads (.record n) = some (.finished (.error x))) ∨
      w.threads (.record n) = some (.finished (.ok ())) ∧ w.recorder.Holds s a.agent g.tokenIds
  /-- a turn that was answered is in the record -/
  served : ∀ n a g parsed, k ≤ n → w.life.admitted n = some a → a.session = s →
    w.turns n = some (.ended (some (.served g parsed))) → w.recorder.Holds s a.agent g.tokenIds

namespace Recorded

theorem start (hsound : Sound w.life) (h : Opened w s) : Recorded w s w.life.created where
  waiting id work hrun hedits := absurd hedits (h.threads id work hrun).1
  recorded n a _ _ hk ha := absurd (hsound.numbered.admitted n a ha).1 (Nat.not_lt.mpr hk)
  served n a _ _ hk ha := absurd (hsound.numbered.admitted n a ha).1 (Nat.not_lt.mpr hk)

/-- What a step does to the recorder. -/
inductive Records (w w' : LLMProxyServer) (e : ServerEvent) : Prop where
  | same (h : w'.recorder = w.recorder)
  | ensured (session : String) (model : Option String)
      (h : w'.recorder = w.recorder.ensureSession w.now session model)
  | recorded (session : String) (d : Delivery) (fault : Option RecordFault)
      (h : w'.recorder = (w.recorder.recordCompletion w.now session d fault).2)
  | marked (session : String) (agent : Option String) (messages : List Fields)
      (promptIds ids : List Int)
      (h : w'.recorder =
        (w.recorder.markRecordingFailed w.now session agent messages promptIds ids).2)
  | sealed (session : String) (h : w.recorder.finalizeSession session = .ok w'.recorder)
  | deleted (session : String) (he : e = .delete session)
      (h : w'.recorder = w.recorder.deleteSession w.now session)

theorem records (hs : ServerStep cfg w e w') : Records w w' e := by
  cases hs with
  | chat session agent body model hs hd hm life hl => exact .ensured session (some model) rfl
  | record t fault i session d hrun => exact .recorded session d fault rfl
  | mark t fault i session agent messages promptIds ids hrun =>
    exact .marked session (some agent) messages promptIds ids rfl
  | sealed t fault i session r hrun hr => exact .sealed session hr
  | delete session life hl => exact .deleted session rfl rfl
  | turn n i t a stage stage' w' hp hm => exact .same hm.recorder
  | interrupt n t a stage w' hp hdue hi =>
    cases hi with
    | drains g life hs hw hl => exact .same rfl
    | ends w' hm => exact .same hm.recorder
  | _ => exact .same rfl

/-- What the record holds, a step holds. -/
theorem holds (hs : ServerStep cfg w e w') (hne : e ≠ .delete s) {agent : String} {ids : List Int}
    (h : w.recorder.Holds s agent ids) : w'.recorder.Holds s agent ids := by
  cases records hs with
  | same he => exact he ▸ h
  | ensured session model he =>
    rw [he]
    exact h.of_turns (w.recorder.ensureSession_turns w.now session model s)
  | recorded session d fault he =>
    rw [he]
    exact h.recorded d fault
  | marked session a messages promptIds ids' he =>
    rw [he]
    exact h.of_turns (congrArg SessionRecord.turns (SessionRecorder.sessionFor_congr
      (w.recorder.markRecordingFailed_sessions w.now session a messages promptIds ids') s))
  | sealed session hr => exact h.of_turns (SessionRecorder.finalizeSession_turns hr s)
  | deleted session hdel he =>
    have hss : s ≠ session := fun hs => hne (hs ▸ hdel)
    refine h.of_turns (congrArg SessionRecord.turns ?_)
    unfold SessionRecorder.sessionFor
    rw [he, (w.recorder.deleteSession_get? w.now hss).1]

/-- An unresolved failure stays until its turn is in the record. -/
theorem failed (hs : ServerStep cfg w e w') (hne : e ≠ .delete s) {agent : String}
    {lost : FailedTurn} (h : w.recorder.failedTurn s (some agent) = some lost) :
    w'.recorder.failedTurn s (some agent) = some lost ∨
      w'.recorder.Holds s agent lost.tokenIds := by
  have kept : w'.recorder.recordingFailed.get? s = w.recorder.recordingFailed.get? s →
      w'.recorder.failedTurn s (some agent) = some lost := by
    intro hsame
    unfold SessionRecorder.failedTurn at h ⊢
    rw [hsame]
    exact h
  cases records hs with
  | same he => exact .inl (he ▸ h)
  | ensured session model he =>
    refine .inl (kept ?_)
    rw [he, w.recorder.ensureSession_failures w.now session model]
  | recorded session d fault he =>
    rw [he]
    exact w.recorder.recordCompletion_failedTurn w.now session d fault h
  | marked session a messages promptIds ids he =>
    rw [he]
    exact .inl (w.recorder.markRecordingFailed_failedTurn w.now session a messages promptIds ids h)
  | sealed session hr =>
    obtain ⟨x, -, -, hx⟩ := SessionRecorder.finalizeSession_ok hr
    exact .inl (kept (by rw [hx]; rfl))
  | deleted session hdel he =>
    have hss : s ≠ session := fun hs => hne (hs ▸ hdel)
    exact .inl (kept (by rw [he, (w.recorder.deleteSession_get? w.now hss).2]))

/-- The task of a pipeline is there behind a step, in the same session. -/
theorem task_after (hsound : Sound w.life) (hs : ServerStep cfg w e w') {n : Nat} {t : Task}
    (ht : w.life.tasks (.turn n) = some t) (hts : t.session = s) :
    ∃ t', w'.life.tasks (.turn n) = some t' ∧ t'.session = s := by
  rcases hs.life with he | ⟨le, hl, -⟩
  · exact ⟨t, he ▸ ht, hts⟩
  · obtain ⟨t', ht', he⟩ := hsound.numbered.exists_after hl ht
    exact ⟨t', ht', he.trans hts⟩

/-- The pipelines that waited wait, if no stage and no thread is touched. -/
theorem waiting_kept (hsound : Sound w.life) (h : Recorded w s k) (hs : ServerStep cfg w e w')
    (hthreads : ∀ id work, w'.threads id = some (.running work) → work.edits = some s →
      w.threads id = some (.running work))
    (hturns : ∀ n stage id t, w.turns n = some stage → stage.thread n = some id →
      w.life.tasks (.turn n) = some t → t.session = s →
        (∃ work, w'.threads id = some (.running work)) → w'.turns n = some stage) :
    ∀ id work, w'.threads id = some (.running work) → work.edits = some s →
      ∃ n stage t, w'.turns n = some stage ∧ stage.thread n = some id ∧
        w'.life.tasks (.turn n) = some t ∧ t.session = s := by
  intro id work hrun hedits
  obtain ⟨n, stage, t, hstage, hid, ht, hts⟩ :=
    h.waiting id work (hthreads id work hrun hedits) hedits
  obtain ⟨t', ht', hts'⟩ := task_after hsound hs ht hts
  exact ⟨n, stage, t', hturns n stage id t hstage hid ht hts ⟨work, hrun⟩, hid, ht', hts'⟩

theorem admitted_before (hsound : Sound w.life) (hst : Staged w) (hs : ServerStep cfg w e w')
    {n : Nat} {stage : TurnStage} {a : Admitted} (hstage : w.turns n = some stage)
    (ha : w'.life.admitted n = some a) : w.life.admitted n = some a := by
  obtain ⟨t, ht⟩ := hst.task n stage hstage
  obtain ⟨b, hb, -⟩ := hsound.numbered.turn n t ht
  rcases hs.life with he | ⟨le, hl, -⟩
  · exact he ▸ ha
  · have hb' := hsound.numbered.admitted_after hl hb
    rw [ha] at hb'
    cases hb'
    exact hb

theorem waiting_turn (hsound : Sound w.life) (h : Recorded w s k) {n : Nat} {i : TurnInput}
    {t : Task} {a : Admitted} {stage stage' : TurnStage} (hrun : w.turnStep cfg n i = some w')
    (hp : w.Piece n t a stage) (hm : w.Moves n a stage stage' w') :
    ∀ id work, w'.threads id = some (.running work) → work.edits = some s →
      ∃ n stage t, w'.turns n = some stage ∧ stage.thread n = some id ∧
        w'.life.tasks (.turn n) = some t ∧ t.session = s := by
  have hs : ServerStep cfg w (.turn n i) w' := .turn n i t a stage stage' w' hp hm
  -- the thread of another pipeline: the one that moves has no thread at work
  have old : ∀ id work, w.threads id = some (.running work) → work.edits = some s →
      ∃ n stage t, w'.turns n = some stage ∧ stage.thread n = some id ∧
        w'.life.tasks (.turn n) = some t ∧ t.session = s := by
    intro id work hwork hedits
    obtain ⟨m, stage₀, u, hstage₀, hid, hu, hus⟩ := h.waiting id work hwork hedits
    have hne : m ≠ n := by
      intro hmn
      subst hmn
      obtain ⟨r, hr⟩ := turnStep_thread hstage₀ hid hrun
      rw [hr] at hwork
      cases hwork
    obtain ⟨u', hu', hus'⟩ := task_after hsound hs hu hus
    exact ⟨m, stage₀, u', by rw [hm.turns, Function.update_of_ne hne, hstage₀], hid, hu', hus'⟩
  have own : ∀ id (work : ThreadWork), stage'.thread n = some id → work.edits = some a.session →
      work.edits = some s → ∃ n stage t, w'.turns n = some stage ∧ stage.thread n = some id ∧
        w'.life.tasks (.turn n) = some t ∧ t.session = s := by
    intro id work hid hown hedits
    have has : a.session = s := by
      rw [hown] at hedits
      exact Option.some.inj hedits
    obtain ⟨b, hb, hbs⟩ := hsound.numbered.turn n t hp.task
    rw [hp.admitted] at hb
    cases hb
    obtain ⟨t', ht', hts'⟩ := task_after hsound hs hp.task (hbs.symm.trans has)
    exact ⟨n, stage', t', by rw [hm.turns, Function.update_self], hid, ht', hts'⟩
  intro id work hwork hedits
  cases hm.threads with
  | same _ _ _ he =>
    rw [he] at hwork
    exact old id work hwork hedits
  | record g parsed body he =>
    rw [he, Function.update_apply] at hwork
    split at hwork
    · next hid =>
      cases hwork
      exact own id _ (by rw [hid]; rfl) rfl hedits
    · exact old id work hwork hedits
  | mark x messages promptIds ids he =>
    rw [he, Function.update_apply] at hwork
    split at hwork
    · next hid =>
      cases hwork
      exact own id _ (by rw [hid]; rfl) rfl hedits
    · exact old id work hwork hedits

theorem waiting_step (hsound : Sound w.life) (hund : Undeleted w s k) (h : Recorded w s k)
    (hrun : w.step cfg e = some w') (hs : ServerStep cfg w e w') :
    ∀ id work, w'.threads id = some (.running work) → work.edits = some s →
      ∃ n stage t, w'.turns n = some stage ∧ stage.thread n = some id ∧
        w'.life.tasks (.turn n) = some t ∧ t.session = s := by
  have finished : ∀ j x, (∀ id work, Function.update w.threads j (some (.finished x)) id =
      some (.running work) → work.edits = some s → w.threads id = some (.running work)) := by
    intro j x id work hw _
    rw [Function.update_apply] at hw
    split at hw
    · cases hw
    · exact hw
  have hs' := hs
  cases hs with
  | turn n i t a stage stage' w' hp hm => exact h.waiting_turn hsound hrun hp hm
  | interrupt n t a stage w' hp hdue hi =>
    -- no pipeline of this session is cancelled
    have other : ∀ m u, w.life.tasks (.turn m) = some u → u.session = s → m ≠ n := by
      intro m u hu hus hmn
      subst hmn
      rw [hp.task] at hu
      cases hu
      rw [hund.turn hsound hp.task hp.runs hus] at hdue
      cases hdue
    cases hi with
    | drains g life hs hw hl =>
      exact h.waiting_kept hsound hs' (fun _ _ hw _ => hw) fun m _ _ u hstage _ hu hus _ =>
        (Function.update_of_ne (other m u hu hus) _ _).trans hstage
    | ends w' hm =>
      refine h.waiting_kept hsound hs' (fun id work hw _ => ?_) fun m _ _ u hstage _ hu hus _ => ?_
      · cases hm.threads with
        | same _ _ _ he => exact he ▸ hw
      · rw [hm.turns, Function.update_of_ne (other m u hu hus), hstage]
  | acquire n life hl =>
    refine h.waiting_kept hsound hs' (fun _ _ hw _ => hw) fun m stage id t hstage _ ht _ _ => ?_
    refine (Function.update_of_ne ?_ _ _).trans hstage
    intro he
    subst he
    cases hl with
    | acquire _ u a hu hd hdue ha hq hfree =>
      rw [hq] at ht
      cases ht
  | record t fault i session d ht =>
    exact h.waiting_kept hsound hs' (finished _ _) fun _ _ _ _ hstage _ _ _ _ => hstage
  | mark t fault i session agent messages promptIds ids ht =>
    exact h.waiting_kept hsound hs' (finished _ _) fun _ _ _ _ hstage _ _ _ _ => hstage
  | sealed t fault i session r ht hr =>
    exact h.waiting_kept hsound hs' (finished _ _) fun _ _ _ _ hstage _ _ _ _ => hstage
  | unsealed t fault i session x ht hr =>
    exact h.waiting_kept hsound hs' (finished _ _) fun _ _ _ _ hstage _ _ _ _ => hstage
  | drained f t life ht hd hl hb =>
    refine h.waiting_kept hsound hs' (fun id work hw hedits => ?_)
      fun _ _ _ _ hstage _ _ _ _ => hstage
    have hw : Function.update w.threads (.sealing f) (some (.running (.sealing t.session))) id =
      some (.running work) := hw
    rw [Function.update_apply] at hw
    split at hw
    · cases hw
      cases hedits
    · exact hw
  | _ => exact h.waiting_kept hsound hs' (fun _ _ hw _ => hw) fun _ _ _ _ hstage _ _ _ _ => hstage

/-- The recording of a pipeline stands where it stood, if its stage and its thread do. -/
theorem recorded_kept (h : Recorded w s k) (hs : ServerStep cfg w e w') (hne : e ≠ .delete s)
    {n : Nat} {a : Admitted} {g : Generated} {parsed : ParsedCompletion}
    (hk : k ≤ n) (ha : w.life.admitted n = some a) (has : a.session = s)
    (hstage : w.turns n = some (.recording g parsed))
    (hth : w'.threads (.record n) = w.threads (.record n)) :
    (∃ d, w'.threads (.record n) = some (.running (.record s d)) ∧ d.agentId = some a.agent ∧
        d.tokenIds = g.tokenIds) ∨
      (∃ x, w'.threads (.record n) = some (.finished (.error x))) ∨
      w'.threads (.record n) = some (.finished (.ok ())) ∧
        w'.recorder.Holds s a.agent g.tokenIds := by
  rw [hth]
  exact (h.recorded n a g parsed hk ha has hstage).imp id (Or.imp id (And.imp id (holds hs hne)))

/-- The thread that records a turn does nothing else. -/
theorem record_work (h : Recorded w s k) {n : Nat} {a : Admitted} {g : Generated}
    {parsed : ParsedCompletion} {work : ThreadWork} (hk : k ≤ n)
    (ha : w.life.admitted n = some a) (has : a.session = s)
    (hstage : w.turns n = some (.recording g parsed))
    (hrun : w.threads (.record n) = some (.running work)) :
    ∃ d, work = .record s d ∧ d.agentId = some a.agent ∧ d.tokenIds = g.tokenIds := by
  rcases h.recorded n a g parsed hk ha has hstage with ⟨d, hd, hagent, hids⟩ | ⟨x, hx⟩ | ⟨hok, -⟩
  · rw [hrun] at hd
    cases hd
    exact ⟨d, rfl, hagent, hids⟩
  · rw [hrun] at hx
    cases hx
  · rw [hrun] at hok
    cases hok

theorem recorded_step (hsound : Sound w.life) (hst : Staged w) (hund : Undeleted w s k)
    (h : Recorded w s k) (hs : ServerStep cfg w e w') (hne : e ≠ .delete s) :
    ∀ n a g parsed, k ≤ n → w'.life.admitted n = some a → a.session = s →
      w'.turns n = some (.recording g parsed) →
        (∃ d, w'.threads (.record n) = some (.running (.record s d)) ∧ d.agentId = some a.agent ∧
          d.tokenIds = g.tokenIds) ∨
        (∃ x, w'.threads (.record n) = some (.finished (.error x))) ∨
        w'.threads (.record n) = some (.finished (.ok ())) ∧
          w'.recorder.Holds s a.agent g.tokenIds := by
  intro n a g parsed hk ha has hstage
  have same : w.turns n = some (.recording g parsed) →
      w'.threads (.record n) = w.threads (.record n) → _ := fun hstage =>
    h.recorded_kept hs hne hk (admitted_before hsound hst hs hstage ha) has hstage
  -- a thread that does something else is not the one of this pipeline
  have other : ∀ j work, w.turns n = some (.recording g parsed) →
      w.threads j = some (.running work) → (∀ d, work ≠ .record s d) → .record n ≠ j := by
    intro j work hstage hrun hwork hj
    subst hj
    obtain ⟨d, hd, -⟩ := h.record_work hk (admitted_before hsound hst hs hstage ha) has hstage hrun
    exact hwork d hd
  have hs' := hs
  cases hs with
  | turn m i t b stage stage' w' hp hm =>
    rw [hm.turns] at hstage
    rcases eq_or_ne n m with rfl | hnm
    · rw [Function.update_self] at hstage
      cases hstage
      have hab := admitted_before hsound hst hs' hp.turn ha
      rw [hp.admitted] at hab
      cases hab
      cases hm.threads with
      | same _ hr _ _ => exact absurd rfl (hr g parsed)
      | record _ _ body he =>
        refine .inl ⟨delivery a body g parsed, ?_, rfl, rfl⟩
        rw [he, Function.update_self, has]
    · rw [Function.update_of_ne hnm] at hstage
      refine same hstage ?_
      cases hm.threads with
      | same _ _ _ he => rw [he]
      | record _ _ body he => rw [he, Function.update_of_ne (by simp [hnm])]
      | mark _ _ _ _ he => rw [he, Function.update_of_ne (by simp)]
  | interrupt m t b stage w' hp hdue hi =>
    cases hi with
    | drains g' life hs hw hl =>
      have hstage : Function.update w.turns m (some (.draining g')) n = _ := hstage
      rw [Function.update_apply] at hstage
      split at hstage
      · cases hstage
      · exact same hstage rfl
    | ends w' hm =>
      rw [hm.turns, Function.update_apply] at hstage
      split at hstage
      · cases hstage
      · refine same hstage ?_
        cases hm.threads with
        | same _ _ _ he => rw [he]
  | acquire m life hl =>
    have hstage : Function.update w.turns m (some .fresh) n = some (.recording g parsed) := hstage
    rw [Function.update_apply] at hstage
    split at hstage
    · cases hstage
    · exact same hstage rfl
  | record j fault i session d hrun =>
    rcases eq_or_ne (.record n) j with hj | hj
    · subst hj
      obtain ⟨d', hd, hagent, hids⟩ := h.record_work hk (admitted_before hsound hst hs' hstage ha)
        has hstage hrun
      cases hd
      cases hout : (w.recorder.recordCompletion w.now s d fault).1 with
      | error x => exact .inr (.inl ⟨x, by rw [← hout]; exact Function.update_self _ _ _⟩)
      | ok u =>
        refine .inr (.inr ⟨Function.update_self _ _ _, ?_⟩)
        rw [← hids]
        exact SessionRecorder.recordCompletion_holds hund.tombstone hagent hout
    · exact same hstage (Function.update_of_ne hj _ _)
  | mark j fault i session agent messages promptIds ids hrun =>
    exact same hstage (Function.update_of_ne (other j _ hstage hrun fun _ he => by cases he) _ _)
  | sealed j fault i session r hrun hr =>
    exact same hstage (Function.update_of_ne (other j _ hstage hrun fun _ he => by cases he) _ _)
  | unsealed j fault i session x hrun hr =>
    exact same hstage (Function.update_of_ne (other j _ hstage hrun fun _ he => by cases he) _ _)
  | drained f t life ht hd hl hb =>
    have hid : ThreadId.record n ≠ .sealing f := by simp
    exact same hstage
      (Function.update_of_ne hid (some (.running (.sealing t.session))) w.threads)
  | _ => exact same hstage rfl

theorem served_step (hsound : Sound w.life) (hst : Staged w) (h : Recorded w s k)
    (hrun : w.step cfg e = some w') (hs : ServerStep cfg w e w') (hne : e ≠ .delete s) :
    ∀ n a g parsed, k ≤ n → w'.life.admitted n = some a → a.session = s →
      w'.turns n = some (.ended (some (.served g parsed))) →
        w'.recorder.Holds s a.agent g.tokenIds := by
  intro n a g parsed hk ha has hstage
  have same : w.turns n = some (.ended (some (.served g parsed))) →
      w'.recorder.Holds s a.agent g.tokenIds := fun hold =>
    holds hs hne (h.served n a g parsed hk (admitted_before hsound hst hs hold ha) has hold)
  have hs' := hs
  cases hs with
  | turn m i t b stage stage' w' hp hm =>
    have hstage' := hstage
    rw [hm.turns] at hstage
    rcases eq_or_ne n m with rfl | hnm
    · rw [Function.update_self] at hstage
      have hrec := hm.served g parsed (Option.some.inj hstage)
      have hturn := hp.turn
      rw [hrec] at hturn
      have hab := admitted_before hsound hst hs' hturn ha
      -- a pipeline answers behind the recording of its turn
      rcases turnStep_recording hturn hrun with ⟨hok, -⟩ | ⟨x, -, hmark⟩
      · rcases h.recorded n a g parsed hk hab has hturn with ⟨d, hd, -⟩ | ⟨x, hx⟩ | ⟨-, hheld⟩
        · rw [hok] at hd
          cases hd
        · rw [hok] at hx
          cases hx
        · exact holds hs' hne hheld
      · rw [hstage'] at hmark
        cases hmark
    · rw [Function.update_of_ne hnm] at hstage
      exact same hstage
  | interrupt m t b stage w' hp hdue hi =>
    cases hi with
    | drains g' life hs hw hl =>
      have hstage : Function.update w.turns m (some (.draining g')) n = _ := hstage
      rw [Function.update_apply] at hstage
      split at hstage
      · cases hstage
      · exact same hstage
    | ends w' hm =>
      rw [hm.turns, Function.update_apply] at hstage
      split at hstage
      · cases hstage
      · exact same hstage
  | acquire m life hl =>
    have hstage : Function.update w.turns m (some .fresh) n = _ := hstage
    rw [Function.update_apply] at hstage
    split at hstage
    · cases hstage
    · exact same hstage
  | _ => exact same hstage

theorem step (hsound : Sound w.life) (hst : Staged w) (hund : Undeleted w s k) (h : Recorded w s k)
    (hrun : w.step cfg e = some w') (hne : e ≠ .delete s) : Recorded w' s k :=
  have hs := step_server hsound hst hrun
  ⟨h.waiting_step hsound hund hrun hs, h.recorded_step hsound hst hund hs hne,
    h.served_step hsound hst hrun hs hne⟩

end Recorded

/-! ## 3. The finalization -/

/-- The threads that seal: each belongs to a finalization whose drain has ended. -/
structure Sealing (w : LLMProxyServer) : Prop where
  drained : ∀ f x, w.threads (.sealing f) = some x → w.life.drained f = some true
  owner : ∀ f work, w.threads (.sealing f) = some (.running work) →
    ∃ t, w.life.tasks (.finalization f) = some t ∧ work = .sealing t.session
  place : ∀ id session, w.threads id = some (.running (.sealing session)) → ∃ f, id = .sealing f

namespace Sealing

theorem start (p : Provider) : Sealing (.start p) where
  drained f x h := by cases h
  owner f work h := by cases h
  place id session h := by cases h

/-- What a step does to the threads that seal. -/
inductive Seals (w w' : LLMProxyServer) (e : ServerEvent) (f : Nat) : Prop where
  | same (h : w'.threads (.sealing f) = w.threads (.sealing f))
  | starts (t : Task) (ht : w.life.tasks (.finalization f) = some t) (hrun : t.done = false)
      (hw : w.life.drained f ≠ some true) (hd : w'.life.drained f = some true)
      (h : w'.threads (.sealing f) = some (.running (.sealing t.session)))
  | ends (work : ThreadWork) (r : Except PyError Unit)
      (hrun : w.threads (.sealing f) = some (.running work))
      (h : w'.threads (.sealing f) = some (.finished r))
      (hseal : ∀ session, work = .sealing session → r = .ok () →
        w.recorder.finalizeSession session = .ok w'.recorder)

theorem seals (hs : ServerStep cfg w e w') (f : Nat) : Seals w w' e f := by
  have finished : ∀ j work x, w.threads j = some (.running work) →
      w'.threads = Function.update w.threads j (some (.finished x)) →
      (∀ session, work = .sealing session → x = .ok () →
        w.recorder.finalizeSession session = .ok w'.recorder) → Seals w w' e f := by
    intro j work x hrun he hseal
    rcases eq_or_ne (.sealing f) j with hj | hj
    · subst hj
      exact .ends work x hrun (by rw [he, Function.update_self]) hseal
    · exact .same (by rw [he, Function.update_of_ne hj])
  cases hs with
  | turn n i t a stage stage' w' hp hm =>
    refine .same ?_
    cases hm.threads with
    | same _ _ _ he => rw [he]
    | record _ _ body he => rw [he, Function.update_of_ne (by simp)]
    | mark _ _ _ _ he => rw [he, Function.update_of_ne (by simp)]
  | interrupt n t a stage w' hp hdue hi =>
    cases hi with
    | drains g life hs hw hl => exact .same rfl
    | ends w' hm =>
      cases hm.threads with
      | same _ _ _ he => exact .same (by rw [he])
  | record j fault i session d hrun =>
    exact finished j _ _ hrun rfl fun _ he => by cases he
  | mark j fault i session agent messages promptIds ids hrun =>
    exact finished j _ _ hrun rfl fun _ he => by cases he
  | sealed j fault i session r hrun hr =>
    refine finished j _ _ hrun rfl fun session' he _ => ?_
    cases he
    exact hr
  | unsealed j fault i session x hrun hr =>
    exact finished j _ _ hrun rfl fun _ _ he => by cases he
  | drained f' t life ht hd hl hb =>
    rcases eq_or_ne f f' with rfl | hne
    · refine .starts t ht hd (fun hw => ?_) hb (Function.update_self _ _ _)
      cases hl with
      | drain _ u hu hud hudue hwait =>
        rw [hw] at hwait
        rcases hwait with hwait | ⟨hwait, -⟩ <;> cases hwait
    · have hid : ThreadId.sealing f ≠ .sealing f' := by simp [hne]
      refine .same ?_
      change Function.update w.threads (.sealing f') _ (.sealing f) = w.threads (.sealing f)
      exact Function.update_of_ne hid _ _
  | _ => exact .same rfl

/-- A drain that has ended has ended. -/
theorem drained_after (hs : ServerStep cfg w e w') {f : Nat} (h : w.life.drained f = some true) :
    w'.life.drained f = some true := by
  rcases hs.life with he | ⟨le, hl, -⟩
  · exact he ▸ h
  · exact hl.drained_kept h

theorem drained_step (h : Sealing w) (hs : ServerStep cfg w e w') :
    ∀ f x, w'.threads (.sealing f) = some x → w'.life.drained f = some true := by
  intro f x hx
  cases seals hs f with
  | same he => exact drained_after hs (h.drained f x (he ▸ hx))
  | starts t ht hlive hw hd he => exact hd
  | ends work r hrun he hseal => exact drained_after hs (h.drained f _ hrun)

theorem owner_step (hsound : Sound w.life) (h : Sealing w) (hs : ServerStep cfg w e w') :
    ∀ f work, w'.threads (.sealing f) = some (.running work) →
      ∃ t, w'.life.tasks (.finalization f) = some t ∧ work = .sealing t.session := by
  intro f work hwork
  have hold : ∃ t, w.life.tasks (.finalization f) = some t ∧ work = .sealing t.session := by
    cases seals hs f with
    | same he => exact h.owner f work (he ▸ hwork)
    | starts t ht hlive hw hd he =>
      rw [hwork] at he
      cases he
      exact ⟨t, ht, rfl⟩
    | ends work' r hrun he hseal =>
      rw [hwork] at he
      cases he
  obtain ⟨t, ht, rfl⟩ := hold
  rcases hs.life with he | ⟨le, hl, -⟩
  · exact ⟨t, he ▸ ht, rfl⟩
  · obtain ⟨t', ht', he⟩ := hsound.numbered.exists_after hl ht
    exact ⟨t', ht', by rw [he]⟩

theorem place_step (h : Sealing w) (hs : ServerStep cfg w e w') :
    ∀ id session, w'.threads id = some (.running (.sealing session)) → ∃ f, id = .sealing f := by
  intro id session hrun
  have old : ∀ j x, x ≠ some (.running (.sealing session)) →
      w'.threads = Function.update w.threads j x → ∃ f, id = .sealing f := by
    intro j x hx he
    rw [he, Function.update_apply] at hrun
    split at hrun
    · exact absurd hrun hx
    · exact h.place id session hrun
  have same : w'.threads = w.threads → ∃ f, id = .sealing f := fun he =>
    h.place id session (he ▸ hrun)
  cases hs with
  | turn n i t a stage stage' w' hp hm =>
    cases hm.threads with
    | same _ _ _ he => exact same he
    | record _ _ body he => exact old _ _ (by simp) he
    | mark _ _ _ _ he => exact old _ _ (by simp) he
  | interrupt n t a stage w' hp hdue hi =>
    cases hi with
    | drains g life hs hw hl => exact same rfl
    | ends w' hm =>
      cases hm.threads with
      | same _ _ _ he => exact same he
  | record | mark | sealed | unsealed => exact old _ _ (by simp) rfl
  | drained f t life ht hd hl hb =>
    have hrun : Function.update w.threads (.sealing f) _ id = _ := hrun
    rw [Function.update_apply] at hrun
    split at hrun
    · next hid => exact ⟨f, hid⟩
    · exact h.place id session hrun
  | _ => exact same rfl

theorem step (hsound : Sound w.life) (h : Sealing w) (hs : ServerStep cfg w e w') : Sealing w' :=
  ⟨h.drained_step hs, h.owner_step hsound hs, h.place_step hs⟩

/-- A thread that has sealed is not started again. -/
theorem finished_after (h : Sealing w) (hs : ServerStep cfg w e w') {f : Nat}
    {r : Except PyError Unit} (hr : w.threads (.sealing f) = some (.finished r)) :
    w'.threads (.sealing f) = some (.finished r) := by
  cases seals hs f with
  | same he => rw [he, hr]
  | starts t ht hlive hw hd he => exact absurd (h.drained f _ hr) hw
  | ends work r' hrun he hseal =>
    rw [hr] at hrun
    cases hrun

end Sealing

/-- Where the finalization of a session stands that was not deleted since `k` tasks were created. -/
structure Barred (w : LLMProxyServer) (s : String) (k : Nat) : Prop where
  /-- nothing is admitted behind the registration -/
  older : ∀ f, w.life.finalizationTasks.get? s = some f → ∀ n a, w.life.admitted n = some a →
    a.session = s → n < f
  one : ∀ f t, k ≤ f → w.life.tasks (.finalization f) = some t → t.session = s →
    w.life.finalizationTasks.get? s = some f
  /-- no thread seals for a finalization that is over -/
  recent : ∀ f, w.threads (.sealing f) = some (.running (.sealing s)) → k ≤ f
  sealed : ∀ f, w.life.finalizationTasks.get? s = some f →
    w.threads (.sealing f) = some (.finished (.ok ())) →
      (∃ x, w.recorder.sessions.get? s = some x ∧ x.completed = true) ∧
        w.recorder.recordingFailed.get? s = none
  completed : (w.recorder.sessionFor s).completed = true →
    ∃ f, w.life.finalizationTasks.get? s = some f ∧
      w.threads (.sealing f) = some (.finished (.ok ()))
  closed : ∀ f t r, k ≤ f → w.life.tasks (.finalization f) = some t → t.session = s →
    t.ending = some r →
      r = .returned ∧ w.threads (.sealing f) = some (.finished (.ok ())) ∨
        r = .raised ∧ ∃ x, w.threads (.sealing f) = some (.finished (.error x))

namespace Barred

theorem start (hsound : Sound w.life) (h : Opened w s) : Barred w s w.life.created where
  older f hf := by
    rw [h.registered] at hf
    cases hf
  one f t hk ht := absurd (hsound.numbered.tasks _ t ht) (Nat.not_lt.mpr hk)
  recent f hrun := absurd rfl (h.threads _ _ hrun).2
  sealed f hf := by
    rw [h.registered] at hf
    cases hf
  completed hc := by
    rw [h.completed] at hc
    cases hc
  closed f t r hk ht := absurd (hsound.numbered.tasks _ t ht) (Nat.not_lt.mpr hk)

theorem registered_after (hund : Undeleted w s k) (hs : ServerStep cfg w e w') {f : Nat}
    (h : w.life.finalizationTasks.get? s = some f) :
    w'.life.finalizationTasks.get? s = some f := by
  rcases hs.life with he | ⟨le, hl, -⟩
  · exact he ▸ h
  · exact (hl.finalizationTasks_kept h).resolve_right hund.unreleased

theorem older_step (hsound : Sound w.life) (h : Barred w s k) (hs : ServerStep cfg w e w') :
    ∀ f, w'.life.finalizationTasks.get? s = some f → ∀ n a, w'.life.admitted n = some a →
      a.session = s → n < f := by
  intro f hf n a ha has
  rcases hs.life with he | ⟨le, hl, -⟩
  · rw [he] at hf ha
    exact h.older f hf n a ha has
  · rcases hl.admitted_or ha with ha₀ | ⟨session, agent, rfl, rfl, rfl⟩
    · rcases hl.finalizationTasks_or hf with hf₀ | ⟨-, rfl, -⟩
      · exact h.older f hf₀ n a ha₀ has
      · exact (hsound.numbered.admitted n a ha₀).1
    · -- a request is refused where a finalization is registered
      rcases hl.finalizationTasks_or hf with hf₀ | ⟨he, -⟩
      · generalize w'.life = l' at hl
        cases hl with
        | admission _ _ hnone =>
          rw [show session = s from has, hf₀] at hnone
          cases hnone
      · cases he

theorem one_step (hund : Undeleted w s k) (h : Barred w s k) (hs : ServerStep cfg w e w') :
    ∀ f t, k ≤ f → w'.life.tasks (.finalization f) = some t → t.session = s →
      w'.life.finalizationTasks.get? s = some f := by
  intro f t' hk ht' hts
  rcases hs.life with he | ⟨le, hl, -⟩
  · rw [he] at ht' ⊢
    exact h.one f t' hk ht' hts
  · rcases hl.task_before ht' with ⟨hstart, -⟩ | ⟨t, ht, he, -⟩
    · rw [hts] at hstart
      generalize hl' : w'.life = l' at hl
      cases hstart with
      | finalization _ hf =>
        cases hl with
        | finalize _ _ => exact Dict.get?_set_self _ _ _
    · exact registered_after hund hs (h.one f t hk ht (he.trans hts))

theorem recent_step (hund : Undeleted w s k) (h : Barred w s k) (hs : ServerStep cfg w e w') :
    ∀ f, w'.threads (.sealing f) = some (.running (.sealing s)) → k ≤ f := by
  intro f hf
  cases Sealing.seals hs f with
  | same he => exact h.recent f (he ▸ hf)
  | starts t ht hlive hw hd he =>
    rw [hf] at he
    cases he
    refine Nat.le_of_not_lt fun hlt => ?_
    have hdone := hund.before f t ht rfl hlt
    rw [hlive] at hdone
    cases hdone
  | ends work r hrun' he hseal =>
    rw [hf] at he
    cases he

/-- **Behind the barrier the record stays as it is**: no request is let in, no pipeline is left to
    record, and the seal is set or refused once. -/
theorem still (hsound : Sound w.life) (hst : Staged w) (hseals : Sealing w) (hrec : Recorded w s k)
    (h : Barred w s k)    (hs : ServerStep cfg w e w') (hne : e ≠ .delete s) {f : Nat}
    (hf : w.life.finalizationTasks.get? s = some f) (hdr : w.life.drained f = some true)
    (hseal : (∃ r, w.threads (.sealing f) = some (.finished r)) ∨
      w.recorder.recordingFailed.get? s ≠ none) :
    w'.recorder.sessions.get? s = w.recorder.sessions.get? s ∧
      w'.recorder.recordingFailed.get? s = w.recorder.recordingFailed.get? s := by
  have touched : ∀ session r, session ≠ s → SessionRecorder.Touches w.now session w.recorder r →
      w'.recorder = r → w'.recorder.sessions.get? s = w.recorder.sessions.get? s ∧
        w'.recorder.recordingFailed.get? s = w.recorder.recordingFailed.get? s := by
    intro session r hss ht he
    rw [he]
    exact ⟨ht.record s (Ne.symm hss), ht.failures s (Ne.symm hss)⟩
  have idle : ∀ id work session, w.threads id = some (.running work) → work.edits = some session →
      session ≠ s := by
    intro id work session hrun hedits hss
    subst hss
    obtain ⟨n, stage, t, hstage, hid, ht, hts⟩ := hrec.waiting id work hrun hedits
    have hdone := hsound.quiet session f hf hdr (.turn n) t rfl ht hts
    obtain ⟨stage', hstage', hfit⟩ := hst.stage n t ht
    rw [hstage] at hstage'
    cases hstage'
    -- a pipeline that waits for its thread is under way
    obtain ⟨r, hr⟩ := Option.isSome_iff_exists.mp hdone
    obtain ⟨answer, he, -⟩ := hfit.of_ending hr
    rw [he] at hid
    cases hid
  cases hs with
  | chat session agent body model hs hd hm life hl =>
    refine touched session _ ?_ (w.recorder.ensureSession_touches w.now session (some model)) rfl
    intro he
    subst he
    cases hl with
    | admission _ _ hnone =>
      rw [hf] at hnone
      cases hnone
  | record j fault i session d hrun =>
    exact touched session _ (idle j _ session hrun rfl)
      (w.recorder.recordCompletion_touches w.now session d fault) rfl
  | mark j fault i session agent messages promptIds ids hrun =>
    exact touched session _ (idle j _ session hrun rfl)
      (w.recorder.markRecordingFailed_touches w.now session (some agent) messages promptIds ids) rfl
  | sealed j fault i session r hrun hr =>
    refine SessionRecorder.finalizeSession_others hr ?_
    intro he
    subst he
    obtain ⟨f', rfl⟩ := hseals.place j s hrun
    obtain ⟨t, ht, hwork⟩ := hseals.owner f' _ hrun
    cases hwork
    have hf' := h.one f' t (h.recent f' hrun) ht rfl
    rw [hf] at hf'
    cases hf'
    rcases hseal with ⟨x, hx⟩ | hfailed
    · rw [hrun] at hx
      cases hx
    · obtain ⟨x, -, hnone, -⟩ := SessionRecorder.finalizeSession_ok hr
      exact hfailed hnone
  | delete session life hl =>
    exact w.recorder.deleteSession_get? w.now fun he => hne (by rw [he])
  | turn n i t a stage stage' w' hp hm => rw [hm.recorder]; exact ⟨rfl, rfl⟩
  | interrupt n t a stage w' hp hdue hi =>
    cases hi with
    | drains g life hs hw hl => exact ⟨rfl, rfl⟩
    | ends w' hm => rw [hm.recorder]; exact ⟨rfl, rfl⟩
  | _ => exact ⟨rfl, rfl⟩

theorem sealed_step (hsound : Sound w.life) (hst : Staged w) (hseals : Sealing w)
    (hrec : Recorded w s k) (h : Barred w s k) (hs : ServerStep cfg w e w') (hne : e ≠ .delete s) :
    ∀ f, w'.life.finalizationTasks.get? s = some f →
      w'.threads (.sealing f) = some (.finished (.ok ())) →
        (∃ x, w'.recorder.sessions.get? s = some x ∧ x.completed = true) ∧
          w'.recorder.recordingFailed.get? s = none := by
  intro f hf hok
  -- it was registered before: a new finalization has not drained
  have hf₀ : w.life.finalizationTasks.get? s = some f := by
    rcases hs.life with he | ⟨le, hl, -⟩
    · exact he ▸ hf
    · refine (hl.finalizationTasks_or hf).resolve_right fun ⟨_, hnew, _⟩ => ?_
      have hdr : w.life.drained f = some true := by
        cases Sealing.seals hs f with
        | same he => exact hseals.drained f _ (he ▸ hok)
        | starts t ht hlive hw hd he =>
          rw [hok] at he
          cases he
        | ends work r hrun he hseal => exact hseals.drained f _ hrun
      obtain ⟨t, ht⟩ := hsound.numbered.drained f true hdr
      exact absurd (hsound.numbered.tasks _ t ht) (by rw [hnew]; exact Nat.lt_irrefl _)
  have keep : w.threads (.sealing f) = some (.finished (.ok ())) →
      (∃ x, w'.recorder.sessions.get? s = some x ∧ x.completed = true) ∧
        w'.recorder.recordingFailed.get? s = none := by
    intro hold
    obtain ⟨hrecord, hfailed⟩ := still hsound hst hseals hrec h hs hne hf₀
      (hseals.drained f _ hold) (.inl ⟨_, hold⟩)
    rw [hrecord, hfailed]
    exact h.sealed f hf₀ hold
  cases Sealing.seals hs f with
  | same he => exact keep (he ▸ hok)
  | starts t ht hlive hw hd he =>
    rw [hok] at he
    cases he
  | ends work r hrun he hseal =>
    obtain ⟨t, ht, rfl⟩ := hseals.owner f work hrun
    obtain ⟨u, hu, hus⟩ := hsound.numbered.finalization s f hf₀
    rw [ht] at hu
    cases hu
    rw [hok] at he
    cases he
    subst hus
    exact SessionRecorder.finalizeSession_sealed (hseal t.session rfl rfl)

theorem completed_step (hseals : Sealing w) (hund : Undeleted w s k) (h : Barred w s k)
    (hs : ServerStep cfg w e w') (hne : e ≠ .delete s) :
    (w'.recorder.sessionFor s).completed = true →
      ∃ f, w'.life.finalizationTasks.get? s = some f ∧
        w'.threads (.sealing f) = some (.finished (.ok ())) := by
  intro hc
  have old : (w'.recorder.sessionFor s).completed = (w.recorder.sessionFor s).completed →
      ∃ f, w'.life.finalizationTasks.get? s = some f ∧
        w'.threads (.sealing f) = some (.finished (.ok ())) := by
    intro he
    obtain ⟨f, hf, hok⟩ := h.completed (he ▸ hc)
    exact ⟨f, registered_after hund hs hf, hseals.finished_after hs hok⟩
  have hs' := hs
  cases hs with
  | chat session agent body model hs hd hm life hl =>
    exact old (w.recorder.ensureSession_completed w.now session (some model) s)
  | record j fault i session d hrun =>
    exact old (w.recorder.recordCompletion_completed w.now session d fault s)
  | mark j fault i session agent messages promptIds ids hrun =>
    exact old (congrArg SessionRecord.completed
      (SessionRecorder.sessionFor_congr (w.recorder.markRecordingFailed_sessions w.now session
        (some agent) messages promptIds ids) s))
  | sealed j fault i session r hrun hr =>
    by_cases hss : session = s
    · subst hss
      obtain ⟨f, rfl⟩ := hseals.place j session hrun
      obtain ⟨t, ht, hwork⟩ := hseals.owner f _ hrun
      cases hwork
      exact ⟨f, h.one f t (h.recent f hrun) ht rfl, Function.update_self _ _ _⟩
    · refine old (congrArg SessionRecord.completed ?_)
      have hrecord := (SessionRecorder.finalizeSession_others hr (Ne.symm hss)).1
      change (r.sessionFor s) = _
      unfold SessionRecorder.sessionFor
      rw [hrecord]
  | delete session life hl =>
    refine old (congrArg SessionRecord.completed ?_)
    have hss : s ≠ session := fun he => hne (by rw [he])
    unfold SessionRecorder.sessionFor
    rw [(w.recorder.deleteSession_get? w.now hss).1]
  | turn n i t a stage stage' w' hp hm => exact old (by rw [hm.recorder])
  | interrupt n t a stage w' hp hdue hi =>
    cases hi with
    | drains g life hs hw hl => exact old rfl
    | ends w' hm => exact old (by rw [hm.recorder])
  | _ => exact old rfl

theorem closed_step (hseals : Sealing w) (hund : Undeleted w s k) (h : Barred w s k)
    (hs : ServerStep cfg w e w') :
    ∀ f t r, k ≤ f → w'.life.tasks (.finalization f) = some t → t.session = s →
      t.ending = some r →
      r = .returned ∧ w'.threads (.sealing f) = some (.finished (.ok ())) ∨
        r = .raised ∧ ∃ x, w'.threads (.sealing f) = some (.finished (.error x)) := by
  intro f t' r hk ht' hts hend
  have old : ∀ t, w.life.tasks (.finalization f) = some t → t.session = s → t.ending = some r →
      r = .returned ∧ w'.threads (.sealing f) = some (.finished (.ok ())) ∨
        r = .raised ∧ ∃ x, w'.threads (.sealing f) = some (.finished (.error x)) := by
    intro t ht hts hend
    rcases h.closed f t r hk ht hts hend with ⟨hr, hok⟩ | ⟨hr, x, hx⟩
    · exact .inl ⟨hr, hseals.finished_after hs hok⟩
    · exact .inr ⟨hr, x, hseals.finished_after hs hx⟩
  rcases hs.life with he | ⟨le, hl, hfrom, -⟩
  · exact old t' (he ▸ ht') hts hend
  · cases hl.task (.finalization f) with
    | kept hkept => exact old t' (hkept.symm.trans ht') hts hend
    | starts session hstart hnew =>
      rw [ht'] at hnew
      cases hnew
      cases hend
    | cancelled t ht hnew hc =>
      rw [ht'] at hnew
      cases hnew
      have hfate := t.cancel_fate
      exact old t ht ((congrArg (·.1) hfate).symm.trans hts)
        ((congrArg (·.2.2) hfate).symm.trans hend)
    | interrupted n t hid _ _ _ _ _ => cases hid
    | ends t r₀ ht hd hends hnew =>
      cases hends with
      | finalization _ _ hc =>
        have he : e = .close f := hfrom
        subst he
        cases hs with
        | close _ u r₁ life hu hud hr hl' =>
          rw [ht] at hu
          cases hu
          cases hl' with
          | close _ v _ hv hvd hvc =>
            rw [ht] at hv
            cases hv
            have ht' : Function.update w.life.tasks (.finalization f) _ (.finalization f) =
              some t' := ht'
            rw [Function.update_self] at ht'
            cases ht'
            cases hend
            have hdue := hund.finalization f t ht hts hk
            -- the finalization is not cancelled, so it ends as its seal did
            rcases hr with ⟨hdue', -⟩ | ⟨-, ⟨hok, hr⟩ | ⟨x, hx, hr⟩⟩
            · rw [hdue] at hdue'
              cases hdue'
            · exact .inl ⟨hr, hok⟩
            · exact .inr ⟨hr, x, hx⟩

theorem step (hsound : Sound w.life) (hst : Staged w) (hseals : Sealing w)
    (hund : Undeleted w s k) (hrec : Recorded w s k) (h : Barred w s k)
    (hs : ServerStep cfg w e w') (hne : e ≠ .delete s) : Barred w' s k where
  older := h.older_step hsound hs
  one := h.one_step hund hs
  recent := h.recent_step hund hs
  sealed := h.sealed_step hsound hst hseals hrec hs hne
  completed := h.completed_step hseals hund hs hne
  closed := h.closed_step hseals hund hs

end Barred

/-! ## 4. Every run -/

/-- What holds of every run. -/
structure Founded (w : LLMProxyServer) : Prop where
  sound : Sound w.life
  staged : Staged w
  sealing : Sealing w

theorem founded_run {p : Provider} {P : LLMProxyServer → ServerEvent → LLMProxyServer → Prop}
    (h : Steps (step cfg) P (.start p) w) : Founded w :=
  h.inv (I := Founded) ⟨.empty, .start p, .start p⟩ fun _ _ _ hf hrun _ =>
    have hs := step_server hf.sound hf.staged hrun
    ⟨hf.sound.server hs, hf.staged.step hf.sound hs, hf.sealing.step hf.sound hs⟩

/-- All that holds of a session that was not deleted since `k` tasks were created. -/
structure Guarded (w : LLMProxyServer) (s : String) (k : Nat) : Prop extends Founded w where
  undeleted : Undeleted w s k
  recorded : Recorded w s k
  barred : Barred w s k

theorem Guarded.start (hf : Founded w) (h : Opened w s) : Guarded w s w.life.created :=
  { hf with
    undeleted := .start hf.sound h
    recorded := .start hf.sound h
    barred := .start hf.sound h }

theorem Guarded.step (h : Guarded w s k) (hrun : w.step cfg e = some w') (hne : e ≠ .delete s) :
    Guarded w' s k :=
  have hs := step_server h.sound h.staged hrun
  { sound := h.sound.server hs
    staged := h.staged.step h.sound hs
    sealing := h.sealing.step h.sound hs
    undeleted := h.undeleted.step h.sound hs hne
    recorded := h.recorded.step h.sound h.staged h.undeleted hrun hne
    barred := h.barred.step h.sound h.staged h.sealing h.undeleted h.recorded hs hne }

theorem guarded_run (h : Guarded w s k)
    (hrun : Steps (step cfg) (fun _ e _ => e ≠ .delete s) w w') : Guarded w' s k :=
  hrun.inv (I := fun w => Guarded w s k) h fun _ _ _ hg hstep hne => hg.step hstep hne

/-- A failure that was marked is unresolved, or its turn is in the record. -/
theorem failed_run (h : Guarded w s k) {agent : String} {lost : FailedTurn}
    (hlost : w.recorder.failedTurn s (some agent) = some lost)
    (hrun : Steps (step cfg) (fun _ e _ => e ≠ .delete s) w w') :
    w'.recorder.failedTurn s (some agent) = some lost ∨
      w'.recorder.Holds s agent lost.tokenIds := by
  have hall := hrun.inv (I := fun u => Guarded u s k ∧
      (u.recorder.failedTurn s (some agent) = some lost ∨
        u.recorder.Holds s agent lost.tokenIds)) ⟨h, .inl hlost⟩ ?_
  · exact hall.2
  · intro t e u ⟨hg, hlost⟩ hstep hne
    have hs := step_server hg.sound hg.staged hstep
    refine ⟨hg.step hstep hne, ?_⟩
    rcases hlost with hlost | hheld
    · exact Recorded.failed hs hne hlost
    · exact .inr (Recorded.holds hs hne hheld)

/-- Nothing is admitted where a finalization is registered. -/
theorem chat_refused (h : Guarded w s k) {f : Nat}
    (hf : w.life.finalizationTasks.get? s = some f) (agent : String) (body : GenerateArgs) :
    w.step cfg (.chat s agent body) = none := by
  cases hrun : w.step cfg (.chat s agent body) with
  | none => rfl
  | some w' =>
    cases step_server h.sound h.staged hrun with
    | chat _ _ _ model hs hd hm life hl =>
      cases hl with
      | admission _ _ hnone =>
        rw [hf] at hnone
        cases hnone

/-- Behind a drain with a seal that is set or will be refused, the record never changes. -/
theorem still_run (h : Guarded w s k) {f : Nat}
    (hf : w.life.finalizationTasks.get? s = some f) (hdr : w.life.drained f = some true)
    (hseal : (∃ r, w.threads (.sealing f) = some (.finished r)) ∨
      w.recorder.recordingFailed.get? s ≠ none)
    (hrun : Steps (step cfg) (fun _ e _ => e ≠ .delete s) w w') :
    Guarded w' s k ∧ w'.life.finalizationTasks.get? s = some f ∧
      w'.recorder.sessions.get? s = w.recorder.sessions.get? s ∧
      w'.recorder.recordingFailed.get? s = w.recorder.recordingFailed.get? s := by
  have hall := hrun.inv (I := fun u => Guarded u s k ∧ u.life.finalizationTasks.get? s = some f ∧
      u.life.drained f = some true ∧ ((∃ r, u.threads (.sealing f) = some (.finished r)) ∨
        u.recorder.recordingFailed.get? s ≠ none) ∧
      u.recorder.sessions.get? s = w.recorder.sessions.get? s ∧
      u.recorder.recordingFailed.get? s = w.recorder.recordingFailed.get? s)
    ⟨h, hf, hdr, hseal, rfl, rfl⟩ ?_
  · obtain ⟨hg, hf', -, -, hrecord, hfailed⟩ := hall
    exact ⟨hg, hf', hrecord, hfailed⟩
  · intro t e u ⟨hg, hf, hdr, hseal, hrecord, hfailed⟩ hstep hne
    have hs := step_server hg.sound hg.staged hstep
    obtain ⟨hrecord', hfailed'⟩ := hg.barred.still hg.sound hg.staged hg.sealing
      hg.recorded hs hne hf hdr hseal
    refine ⟨hg.step hstep hne, Barred.registered_after hg.undeleted hs hf,
      Sealing.drained_after hs hdr, ?_, hrecord'.trans hrecord, hfailed'.trans hfailed⟩
    rcases hseal with ⟨r, hr⟩ | hnone
    · exact .inl ⟨r, hg.sealing.finished_after hs hr⟩
    · exact .inr (by rw [hfailed']; exact hnone)

/-- **Finalization is a barrier**, for a session opened where nothing of it was left, and not
    deleted since. If it returned, nothing of the session is under way, nothing was let in since,
    what was answered is recorded, every failure that was marked is repaired, and the record is
    sealed, without unresolved failure, and stays as it is. If a failure is unresolved behind the
    drain, it never returns, and the record stays unsealed and closed. -/
theorem finalization_is_a_barrier (cfg : ServerConfig) (s : String) :
    ∀ w₀, Steps (step cfg) (fun _ _ _ => True) (.start .empty) w₀ → Opened w₀ s →
      ∀ w, Steps (step cfg) (fun _ e _ => e ≠ .delete s) w₀ w →
      ∀ f t, w₀.life.created ≤ f → w.life.tasks (.finalization f) = some t → t.session = s →
        (t.ending = some .returned →
          (∀ id u, id.isWork = true → w.life.tasks id = some u → u.session = s → u.done = true) ∧
          (∀ n a, w.life.admitted n = some a → a.session = s → n < f) ∧
          (∀ n a g parsed, w₀.life.created ≤ n → w.life.admitted n = some a → a.session = s →
            w.turns n = some (.ended (some (.served g parsed))) →
              w.recorder.Holds s a.agent g.tokenIds) ∧
          (∀ w₁ agent lost, Steps (step cfg) (fun _ e _ => e ≠ .delete s) w₀ w₁ →
            Steps (step cfg) (fun _ e _ => e ≠ .delete s) w₁ w →
              w₁.recorder.failedTurn s (some agent) = some lost →
                w.recorder.Holds s agent lost.tokenIds) ∧
          ∃ x : SessionRecord, x.completed = true ∧
            ∀ w', Steps (step cfg) (fun _ e _ => e ≠ .delete s) w w' →
              w'.recorder.dumpSession s = .ok (some x) ∧
                ∀ agent body, w'.step cfg (.chat s agent body) = none) ∧
        (w.life.drained f = some true → w.recorder.recordingFailed.get? s ≠ none →
          ∀ w', Steps (step cfg) (fun _ e _ => e ≠ .delete s) w w' →
            (∀ t', w'.life.tasks (.finalization f) = some t' → t'.ending ≠ some .returned) ∧
            (w'.recorder.sessionFor s).completed = false ∧
              ∀ agent body, w'.step cfg (.chat s agent body) = none) := by
  intro w₀ hrun₀ hopen w hrun f t hk ht hts
  have hg := guarded_run (.start (founded_run hrun₀) hopen) hrun
  have hf := hg.barred.one f t hk ht hts
  refine ⟨fun hret => ?_, fun hdr hfailed w' hrun' => ?_⟩
  · have hok : w.threads (.sealing f) = some (.finished (.ok ())) := by
      rcases hg.barred.closed f t _ hk ht hts hret with ⟨-, hok⟩ | ⟨hr, -⟩
      · exact hok
      · cases hr
    have hdr := hg.sealing.drained f _ hok
    obtain ⟨⟨x, hx, hc⟩, hnone⟩ := hg.barred.sealed f hf hok
    refine ⟨hg.sound.quiet s f hf hdr, hg.barred.older f hf, hg.recorded.served,
      fun w₁ agent lost hrun₁ hrun₂ hlost => ?_, x, hc, fun w' hrun' => ?_⟩
    · -- the failure is not unresolved any more: the seal found none
      rcases failed_run (guarded_run (.start (founded_run hrun₀) hopen) hrun₁) hlost hrun₂ with
        hmarked | hheld
      · rw [SessionRecorder.failedTurn, hnone] at hmarked
        cases hmarked
      · exact hheld
    obtain ⟨hg', hf', hrecord, hfailed⟩ := still_run hg hf hdr (.inl ⟨_, hok⟩) hrun'
    refine ⟨?_, chat_refused hg' hf'⟩
    unfold SessionRecorder.dumpSession
    rw [hrecord, hx]
    simp only
    rw [if_neg]
    rw [Bool.not_eq_true, Dict.contains_eq_false_iff, hfailed, hnone]
  · obtain ⟨hg', hf', hrecord, hfailed'⟩ := still_run hg hf hdr (.inr hfailed) hrun'
    have hunsealed : w'.threads (.sealing f) ≠ some (.finished (.ok ())) := by
      intro hok
      rw [← hfailed'] at hfailed
      exact hfailed (hg'.barred.sealed f hf' hok).2
    refine ⟨fun t' ht' hret => ?_, ?_, chat_refused hg' hf'⟩
    · obtain ⟨u, hu, hus⟩ := hg'.sound.numbered.finalization s f hf'
      rw [ht'] at hu
      cases hu
      rcases hg'.barred.closed f t' _ hk ht' hus hret with ⟨-, hok⟩ | ⟨hr, -⟩
      · exact hunsealed hok
      · cases hr
    · cases hc : (w'.recorder.sessionFor s).completed with
      | false => rfl
      | true =>
        obtain ⟨f', hf'', hok⟩ := hg'.barred.completed hc
        rw [hf'] at hf''
        cases hf''
        exact absurd hok hunsealed

/-! ## 5. What is lost behind a failure, and behind a deletion -/

/-- A turn for which the engine samples `answer`, up to its recording. -/
def sampledTurn (n : Nat) (answer : EngineAnswer) : List ServerEvent :=
  [.turn n (.go .nothing), .turn n (.go .nothing), .turn n (.go .nothing), .turn n (.go .nothing),
    .turn n (.go .nothing), .turn n (.go (.replays 0)), .turn n (.go .nothing),
    .turn n (.go .nothing), .turn n (.go (.answer answer)), .turn n (.go .nothing)]

/-- The session's finalization `f`, as drained and closed. -/
def finalized (f : Nat) : List ServerEvent :=
  [.finalize "s", .drain f, .thread (.sealing f) none .nothing, .close f]

/-- No deletion. -/
def spares : ServerEvent → Bool
  | .delete _ => false
  | _ => true

theorem spared {w w' : LLMProxyServer} {p : LLMProxyServer → ServerEvent → LLMProxyServer → Bool}
    {es : List ServerEvent} (s : String) (h : exec (step cfg) p w es = some w')
    (hes : es.all spares = true) : Steps (step cfg) (fun _ e _ => e ≠ .delete s) w w' := by
  refine exec_steps_forall h fun e he _ _ hdel => ?_
  have hspared := List.all_eq_true.mp hes e he
  rw [hdel] at hspared
  cases hspared

/-- The recording of turn `n` fails, and is marked. -/
def lost (n : Nat) : List ServerEvent :=
  [.thread (.record n) (some .early) .nothing, .turn n (.go .nothing),
    .thread (.mark n) none .nothing, .turn n (.go .nothing), .leave n, .unlock n]

/-- A first life of the session, over when its tombstone lapses. -/
def firstLife : List ServerEvent :=
  [.delete "s", .cancelAll 0, .release 0 [], .forget 0]

/-- In the second one turn 1 is lost, and its loss marked. -/
def lostTurn : List ServerEvent :=
  [.chat "s" "a" repeatedArgs, .acquire 1] ++ sampledTurn 1 StreamCalls.sampledFive ++ lost 1

/-- Turn 2 repeats it: the stream serves its last turn once more, without the engine. The turn is
    recorded, and the session finalized. -/
def repairedTurn : List ServerEvent :=
  [.chat "s" "a" repeatedArgs, .acquire 2, .turn 2 (.go .nothing), .turn 2 (.go .nothing),
    .turn 2 (.go .nothing), .turn 2 (.go .nothing), .turn 2 (.go .nothing),
    .turn 2 (.go (.replays 0)), .turn 2 (.go .nothing), .thread (.record 2) none .nothing,
    .turn 2 (.go .nothing), .leave 2, .unlock 2] ++ finalized 3

/-- The second life starts with the lapse. -/
theorem opened_again {w : LLMProxyServer}
    (h : exec (step silentServer) (fun _ _ _ => true) (.start .empty) firstLife = some w) :
    w.life.created = 1 ∧ Opened { w with now := w.now + 3600 } "s" := by
  have hlife : (exec (step silentServer) (fun _ _ _ => true) (.start .empty) firstLife).map
      (fun w => (w.life.created, w.isDeleted "s", (w.life.finalizationTasks.get? "s").isNone,
        ({ w with now := w.now + 3600 } : LLMProxyServer).isDeleted "s")) =
          some (1, true, true, false) := by decide +kernel
  have htasks : (exec (step silentServer) (fun _ _ _ => true) (.start .empty) firstLife).map
      (fun w => [TaskId.request 0, .turn 0, .finalization 0, .deletion 0].all
        fun id => (w.life.tasks id).all (·.done)) = some true := by decide +kernel
  have hthreads : (exec (step silentServer) (fun _ _ _ => true) (.start .empty) firstLife).map
      (·.threads) = some fun _ => none := rfl
  rw [h, Option.map_some, Option.some.injEq] at hlife htasks hthreads
  simp only [Prod.mk.injEq, Option.isNone_iff_eq_none] at hlife
  obtain ⟨hone, hdel, hreg, hlapsed⟩ := hlife
  have hrun : Steps (step silentServer) (fun _ _ _ => True) (.start .empty) w :=
    (exec_steps h).mono fun _ _ _ _ => trivial
  refine ⟨hone, .lapsed hrun hdel (fun id t ht _ => ?_) (fun id work hwork => ?_) hreg 3600 hlapsed⟩
  · -- the deletion is the only task that was created
    have hzero : id.number = 0 := by
      have hlt := (founded_run hrun).sound.numbered.tasks id t ht
      rw [hone] at hlt
      exact Nat.lt_one_iff.mp hlt
    have hmem : id ∈ [TaskId.request 0, .turn 0, .finalization 0, .deletion 0] := by
      cases id <;> cases hzero <;> decide
    have hdone := List.all_eq_true.mp htasks id hmem
    rw [ht] at hdone
    exact hdone
  · rw [hthreads] at hwork
    cases hwork

theorem finalization_is_a_barrier_repaired :
    ∃ w₀ w, exec (step silentServer) (fun _ _ _ => true) (.start .empty)
        (firstLife ++ [.tick 3600]) = some w₀ ∧
      exec (step silentServer) (fun _ _ _ => true) w₀ (lostTurn ++ repairedTurn) = some w ∧
      (∀ n a, w.life.admitted n = some a → a.session = "s" → n < 3) ∧
      w.recorder.Holds "s" "a" [5] ∧
      ∃ x : SessionRecord, x.completed = true ∧
        ∀ w', Steps (step silentServer) (fun _ e _ => e ≠ .delete "s") w w' →
          w'.recorder.dumpSession "s" = .ok (some x) := by
  have hlost : (exec (step silentServer) (fun _ _ _ => true) (.start .empty)
      ((firstLife ++ [.tick 3600]) ++ lostTurn)).map
        (fun w => (w.recorder.failedTurn "s" (some "a")).map (·.tokenIds)) = some (some [5]) := by
    decide +kernel
  have hrun : (exec (step silentServer) (fun _ _ _ => true) (.start .empty)
      ((firstLife ++ [.tick 3600]) ++ (lostTurn ++ repairedTurn))).map
        (fun w => (w.life.tasks (.finalization 3)).map fun t => (t.session, t.ending)) =
          some (some ("s", some .returned)) := by decide +kernel
  obtain ⟨w, hw, heq⟩ := Option.map_eq_some_iff.mp hrun
  obtain ⟨w₀, hw₀, hsecond⟩ := exec_append hw
  obtain ⟨w₁, hw₁, hrest⟩ := exec_append hsecond
  obtain ⟨w₂, hw₂, hmark⟩ := Option.map_eq_some_iff.mp hlost
  obtain ⟨w₃, hw₃, hw₂'⟩ := exec_append hw₂
  rw [hw₀, Option.some.injEq] at hw₃
  subst hw₃
  rw [hw₁, Option.some.injEq] at hw₂'
  subst hw₂'
  obtain ⟨lost, hmark, hids⟩ := Option.map_eq_some_iff.mp hmark
  obtain ⟨t, ht, hts⟩ := Option.map_eq_some_iff.mp heq
  obtain ⟨hsession, hreturned⟩ := Prod.mk.inj hts
  -- the second life opens with the lapse
  obtain ⟨u, hu, htick⟩ := exec_append hw₀
  obtain ⟨v, hv, -, hend⟩ := exec_cons htick
  obtain ⟨hone, hopen⟩ := opened_again hu
  cases hv
  cases hend
  obtain ⟨-, hnew, -, hrepaired, x, hc, hdump⟩ :=
    (finalization_is_a_barrier silentServer "s" _
      ((exec_steps hw₀).mono fun _ _ _ _ => trivial) hopen w (spared "s" hsecond (by decide))
      3 t (hone.trans_le (by decide)) ht hsession).1 hreturned
  have hheld := hrepaired w₁ "a" lost (spared "s" hw₁ (by decide)) (spared "s" hrest (by decide))
    hmark
  exact ⟨_, w, hw₀, hsecond, hnew, hids ▸ hheld, x, hc, fun w' h => (hdump w' h).1⟩

/-- The turns of a dump. -/
def dumpedTurns : Except PyError (Option SessionRecord) → Option Nat
  | .ok (some x) => some x.turns.length
  | _ => none

/-- A deletion leaves a recording thread behind. It is at work still when the session, opened again
    behind the tombstone, has been finalized. -/
def abandoned : List ServerEvent :=
  [.chat "s" "a" repeatedArgs, .acquire 0] ++ sampledTurn 0 StreamCalls.sampledFive ++
    [.delete "s", .cancelAll 1, .interrupt 0, .leave 0, .release 1 [], .forget 1, .tick 3600,
      .chat "s" "b" repeatedArgs, .disconnect 2, .leave 2] ++ finalized 3

def sampledSeven : EngineAnswer :=
  .answered "" "m" none (.obj [("output_ids", .arr [.int 7]),
    ("meta_info", .obj [("finish_reason", .obj [("type", .str "stop")]),
      ("output_token_logprobs", .arr [.arr [.int (-1), .int 7]])])])

/-- Turn 0 is lost and marked; turn 1, of another conversation, is about to be recorded. -/
def masked : List ServerEvent :=
  [.chat "s" "a" repeatedArgs, .acquire 0] ++ sampledTurn 0 StreamCalls.sampledFive ++ lost 0 ++
    [.chat "s" "a" { repeatedArgs with
        messages := [[("role", .str "user"), ("content", .str "bye")]] }, .acquire 1] ++
    sampledTurn 1 sampledSeven

/-- Turn 1 is lost, and the mark of turn 0 kept; turn 2 repeats turn 0 and clears it. -/
def unmasked : List ServerEvent :=
  lost 1 ++ [.chat "s" "a" repeatedArgs, .acquire 2] ++ sampledTurn 2 StreamCalls.sampledFive ++
    [.thread (.record 2) none .nothing, .turn 2 (.go .nothing), .leave 2, .unlock 2] ++ finalized 3

def recordingIds : TurnStage → Option (List Int)
  | .recording g _ => some g.tokenIds
  | _ => none

/-- Behind a finalization that returned every dump is the same, until the session is deleted. -/
def DumpsStay (cfg : ServerConfig) : Prop :=
  ∀ s w, Steps (step cfg) (fun _ _ _ => True) (.start .empty) w →
    ∀ f t, w.life.tasks (.finalization f) = some t → t.session = s → t.ending = some .returned →
      ∀ w', Steps (step cfg) (fun _ e _ => e ≠ .delete s) w w' →
        w'.recorder.dumpSession s = w.recorder.dumpSession s

/-- And every turn that was committed, and so came to its recording, is in the record. -/
def CommitsRecorded (cfg : ServerConfig) : Prop :=
  ∀ s w₁ w₂, Steps (step cfg) (fun _ e _ => e ≠ .delete s) (.start .empty) w₁ →
    Steps (step cfg) (fun _ e _ => e ≠ .delete s) w₁ w₂ → ∀ n a g parsed,
      w₁.life.admitted n = some a → a.session = s → w₁.turns n = some (.recording g parsed) →
        ∀ f t, w₂.life.tasks (.finalization f) = some t → t.session = s →
          t.ending = some .returned → w₂.recorder.Holds s a.agent g.tokenIds

/-- A thread that a deletion left behind appends to a record that is sealed. -/
theorem sealed_record_grows : ¬DumpsStay silentServer := by
  intro hall
  have hbefore : (exec (step silentServer) (fun _ _ _ => true) (.start .empty) abandoned).map
      (fun w => ((w.life.tasks (.finalization 3)).map fun t => (t.session, t.ending),
        dumpedTurns (w.recorder.dumpSession "s"))) =
          some (some ("s", some .returned), some 0) := by decide +kernel
  have hafter : (exec (step silentServer) (fun _ _ _ => true) (.start .empty)
      (abandoned ++ [.thread (.record 0) none .nothing])).map
        (fun w => dumpedTurns (w.recorder.dumpSession "s")) = some (some 1) := by decide +kernel
  obtain ⟨w', hw', hone⟩ := Option.map_eq_some_iff.mp hafter
  obtain ⟨w, hw, hlast⟩ := exec_append hw'
  rw [hw, Option.map_some, Option.some.injEq, Prod.mk.injEq] at hbefore
  obtain ⟨ht, hzero⟩ := hbefore
  obtain ⟨t, ht, hts⟩ := Option.map_eq_some_iff.mp ht
  obtain ⟨hsession, hreturned⟩ := Prod.mk.inj hts
  have hsame := hall "s" w ((exec_steps hw).mono fun _ _ _ _ => trivial) 3 t ht hsession hreturned
    w' (exec_steps_forall hlast fun e he _ _ => by
      rw [List.mem_singleton.mp he]
      simp)
  rw [hsame, hzero] at hone
  cases hone

/-- The mark of a lost turn hides the loss of the next one. -/
theorem lost_turn_hidden : ¬CommitsRecorded silentServer := by
  intro hall
  have hbefore : (exec (step silentServer) (fun _ e _ => spares e) (.start .empty) masked).map
      (fun w => ((w.life.admitted 1).map fun a => (a.session, a.agent),
        (w.turns 1).bind recordingIds)) = some (some ("s", "a"), some [7]) := by decide +kernel
  have hafter : (exec (step silentServer) (fun _ e _ => spares e) (.start .empty)
      (masked ++ unmasked)).map (fun w =>
        ((w.life.tasks (.finalization 3)).map fun t => (t.session, t.ending),
          (w.recorder.recordedTurns "s" (some "a")).map (·.completionTokenIds))) =
            some (some ("s", some .returned), [[5]]) := by decide +kernel
  obtain ⟨w₂, hw₂, heq⟩ := Option.map_eq_some_iff.mp hafter
  obtain ⟨ht, hids⟩ := Prod.mk.inj heq
  obtain ⟨w₁, hw₁, hrest⟩ := exec_append hw₂
  rw [hw₁, Option.map_some, Option.some.injEq, Prod.mk.injEq] at hbefore
  obtain ⟨ha, hrec⟩ := hbefore
  obtain ⟨t, ht, hts⟩ := Option.map_eq_some_iff.mp ht
  obtain ⟨hsession, hreturned⟩ := Prod.mk.inj hts
  obtain ⟨a, ha, has⟩ := Option.map_eq_some_iff.mp ha
  obtain ⟨hown, hagent⟩ := Prod.mk.inj has
  obtain ⟨stage, hstage, hstageIds⟩ := Option.bind_eq_some_iff.mp hrec
  cases stage with
  | recording g parsed =>
    obtain ⟨turn, hmem, hturn⟩ := hall "s" w₁ w₂ (spared "s" hw₁ (by decide))
      (spared "s" hrest (by decide)) 1 a g parsed ha hown hstage 3 t ht hsession hreturned
    rw [hagent] at hmem
    have hin := List.mem_map_of_mem (f := (·.completionTokenIds)) hmem
    rw [hids, hturn, Option.some.inj hstageIds] at hin
    simp at hin
  | _ => cases hstageIds

/-- Neither holds of every run. -/
theorem barrier_leaks : ¬DumpsStay silentServer ∧ ¬CommitsRecorded silentServer :=
  ⟨sealed_record_grows, lost_turn_hidden⟩

end LLMProxyServer

end RolloutProxy
