/-
  File:      RolloutProxy/Service/Staged.lean
  Subject:   EVERY STEP OF THE SERVER, and where its pipelines stand.

  * `ServerStep` says once what each event of the server needs and does (`step_server`); the
    invariants of the server are read off it, as those of the tasks are read off `LifeStep`.
  * `ServerStep.life`: on the tasks a step of the server is at most one of theirs.
  * `Staged`: a pipeline has a stage as long as it is under way, and calls the engine for its own
    stream only. No thread of a state update outlives its pipeline (`Staged.updates`).
-/
import RolloutProxy.Service.Moves

namespace RolloutProxy

/-! ## 1. The stages -/

variable {cfg : ServerConfig} {w w' : LLMProxyServer} {e : ServerEvent}

/-- What a cancellation that is on its way leaves of a task. -/
def Task.fate (t : Task) : String × Bool × Option Ending := (t.session, t.interrupted, t.ending)

theorem Task.cancel_fate (t : Task) : t.cancel.fate = t.fate := by
  unfold cancel
  split <;> rfl

/-- Only its own events decide on a pipeline. -/
theorem LifeStep.turn_fate {l l' : Lifecycle} {le : LifeEvent} (hs : LifeStep l le l') {n : Nat}
    (ha : le ≠ .acquire n) (hf : ∀ r, le ≠ .finish n r) (hi : le ≠ .interrupt n) :
    (l'.tasks (.turn n)).map Task.fate = (l.tasks (.turn n)).map Task.fate := by
  cases hs.task (.turn n) with
  | kept h => rw [h]
  | starts session hstart h =>
    cases hstart with
    | turn => exact absurd rfl ha
  | cancelled t ht h hc => rw [h, ht, Option.map_some, Option.map_some, Task.cancel_fate]
  | interrupted m t hid he ht hd hdue h =>
    cases hid
    exact absurd he hi
  | ends t r ht hd hend h =>
    cases hend with
    | turn _ r => exact absurd rfl (hf r)

/-- The stage of a pipeline fits what has become of its task. -/
def TurnStage.Fits (s : TurnStage) (t : Task) : Prop :=
  match s, t.ending with
  | .ended answer, some r => r = .returned ↔ answer.isSome = true
  | .draining g, none => t.interrupted = true ∧ g.stage.isWaiting = false
  | .ended _, none => False
  | _, none => True
  | _, some _ => False

theorem Task.done_false {t : Task} : t.done = false ↔ t.ending = none := by
  unfold done
  cases t.ending <;> simp

namespace TurnStage.Fits

variable {s : TurnStage} {t u : Task}

theorem of_fate (h : s.Fits t) (hf : u.fate = t.fate) : s.Fits u := by
  have h₁ : u.interrupted = t.interrupted := congrArg (·.2.1) hf
  have h₂ : u.ending = t.ending := congrArg (·.2.2) hf
  unfold TurnStage.Fits at h ⊢
  rw [h₁, h₂]
  exact h

theorem running (h : s.Fits t) (hd : t.done = false) : s.isEnded = false := by
  unfold TurnStage.Fits at h
  rw [Task.done_false.mp hd] at h
  cases s <;> first | rfl | exact h.elim

theorem of_draining {g : Generation} (h : (TurnStage.draining g).Fits t) :
    t.done = false ∧ t.interrupted = true ∧ g.stage.isWaiting = false := by
  unfold TurnStage.Fits at h
  cases he : t.ending with
  | none =>
    rw [he] at h
    exact ⟨Task.done_false.mpr he, h⟩
  | some r =>
    rw [he] at h
    exact h.elim

theorem of_ending {r : Ending} (h : s.Fits t) (he : t.ending = some r) :
    ∃ answer, s = .ended answer ∧ (r = .returned ↔ answer.isSome = true) := by
  unfold TurnStage.Fits at h
  rw [he] at h
  cases s with
  | ended answer => exact ⟨answer, rfl, h⟩
  | _ => exact h.elim

theorem of_running (hd : t.done = false) (hs : s.isEnded = false)
    (hg : ∀ g, s = .draining g → t.interrupted = true ∧ g.stage.isWaiting = false) : s.Fits t := by
  unfold TurnStage.Fits
  rw [Task.done_false.mp hd]
  cases s with
  | ended answer => cases hs
  | draining g => exact hg g rfl
  | _ => exact trivial

theorem of_finish {r : Ending} {answer : Option Answer} (h : r = .returned ↔ answer.isSome = true) :
    (TurnStage.ended answer).Fits (t.finish r) := h

end TurnStage.Fits

structure Staged (w : LLMProxyServer) : Prop where
  stage : ∀ n t, w.life.tasks (.turn n) = some t → ∃ s, w.turns n = some s ∧ s.Fits t
  task : ∀ n s, w.turns n = some s → ∃ t, w.life.tasks (.turn n) = some t
  own : ∀ n a s, w.life.admitted n = some a → w.turns n = some s → s.Own a.stream
  bodies : ∀ n a, w.life.admitted n = some a → ∃ body, w.bodies n = some body
  updates : ∀ t stream g, w.threads t ≠ some (.running (.update stream g))

namespace Staged

theorem start (p : Provider) : Staged (.start p) where
  stage n t ht := by cases ht
  task n s hs := by cases hs
  own n a s ha := by cases ha
  bodies n a ha := by cases ha
  updates t stream g h := by cases h

theorem draining_waits (h : Staged w) {n : Nat} {g : Generation}
    (hg : w.turns n = some (.draining g)) : g.stage.isWaiting = false := by
  obtain ⟨t, ht⟩ := h.task n _ hg
  obtain ⟨s, hs, hfit⟩ := h.stage n t ht
  rw [hg] at hs
  cases hs
  exact hfit.of_draining.2.2

/-- A pipeline that drains was cancelled, and is not cancelled again. -/
theorem once (h : Staged w) (hsound : Sound w.life) {n : Nat} {t : Task} {g : Generation}
    (ht : w.life.tasks (.turn n) = some t) (hdue : t.due = true) :
    w.turns n ≠ some (.draining g) := by
  intro hg
  obtain ⟨s, hs, hfit⟩ := h.stage n t ht
  rw [hg] at hs
  cases hs
  obtain ⟨hd, hi, -⟩ := hfit.of_draining
  rw [hsound.interrupted.once n t ht hd hi] at hdue
  cases hdue

end Staged

/-! ## 2. What each event needs and does -/

inductive ServerStep (cfg : ServerConfig) (w : LLMProxyServer) : ServerEvent → LLMProxyServer → Prop
    where
  | tick (d : Rat) (hd : 0 ≤ d) : ServerStep cfg w (.tick d) { w with now := w.now + d }
  | capture (enabled : Option Bool) :
      ServerStep cfg w (.capture enabled)
        { w with provider := w.provider.setRuntimeCapture enabled }
  | sampling (overrides : Json) (p : Provider)
      (hp : w.provider.setRuntimeSampling cfg.provider overrides = .ok p) :
      ServerStep cfg w (.sampling overrides) { w with provider := p }
  | chat (session agent : String) (body : GenerateArgs) (model : String)
      (hs : isSessionId session = true) (hd : w.isDeleted session = false)
      (hm : body.model = some model) (life : Lifecycle)
      (hl : LifeStep w.life (.admission session agent) life) :
      ServerStep cfg w (.chat session agent body)
        { w with
          life := life
          recorder := w.recorder.ensureSession w.now session (some model)
          bodies := Function.update w.bodies w.life.created (some body) }
  | acquire (n : Nat) (life : Lifecycle) (hl : LifeStep w.life (.acquire n) life) :
      ServerStep cfg w (.acquire n) ({ w with life := life }.setTurn n .fresh)
  | leave (n : Nat) (t : Task) (r : Ending) (answer : Option Answer) (life : Lifecycle)
      (ht : w.life.tasks (.request n) = some t) (hd : t.done = false)
      (ho : w.outcome n t = some (r, answer)) (hl : LifeStep w.life (.leave n r) life) :
      ServerStep cfg w (.leave n)
        { w with life := life, answers := Function.update w.answers n answer }
  | turn (n : Nat) (i : TurnInput) (t : Task) (a : Admitted) (stage stage' : TurnStage)
      (w' : LLMProxyServer) (hp : w.Piece n t a stage) (hm : w.Moves n a stage stage' w') :
      ServerStep cfg w (.turn n i) w'
  | interrupt (n : Nat) (t : Task) (a : Admitted) (stage : TurnStage) (w' : LLMProxyServer)
      (hp : w.Piece n t a stage) (hdue : t.due = true) (hi : w.Interrupts n a stage w') :
      ServerStep cfg w (.interrupt n) w'
  | record (t : ThreadId) (fault : Option RecordFault) (i : Awaited) (session : String)
      (d : Delivery) (ht : w.threads t = some (.running (.record session d))) :
      ServerStep cfg w (.thread t fault i)
        ({ w with recorder := (w.recorder.recordCompletion w.now session d fault).2 }.setThread t
          (.finished (w.recorder.recordCompletion w.now session d fault).1))
  | mark (t : ThreadId) (fault : Option RecordFault) (i : Awaited) (session agent : String)
      (messages : List Fields) (promptIds ids : List Int)
      (ht : w.threads t = some (.running (.mark session agent messages promptIds ids))) :
      ServerStep cfg w (.thread t fault i)
        ({ w with recorder := (w.recorder.markRecordingFailed w.now session (some agent) messages
            promptIds ids).2 }.setThread t
          (.finished (w.recorder.markRecordingFailed w.now session (some agent) messages promptIds
            ids).1))
  | sealed (t : ThreadId) (fault : Option RecordFault) (i : Awaited) (session : String)
      (r : SessionRecorder) (ht : w.threads t = some (.running (.sealing session)))
      (hr : w.recorder.finalizeSession session = .ok r) :
      ServerStep cfg w (.thread t fault i)
        ({ w with recorder := r }.setThread t (.finished (.ok ())))
  | unsealed (t : ThreadId) (fault : Option RecordFault) (i : Awaited) (session : String)
      (x : PyError) (ht : w.threads t = some (.running (.sealing session)))
      (hr : w.recorder.finalizeSession session = .error x) :
      ServerStep cfg w (.thread t fault i) (w.setThread t (.finished (.error x)))
  | finalize (session : String) (life : Lifecycle) (hd : w.isDeleted session = false)
      (hr : w.recorder.getSession session ≠ none)
      (hl : LifeStep w.life (.finalize session) life) :
      ServerStep cfg w (.finalize session) { w with life := life }
  | drain (f : Nat) (t : Task) (life : Lifecycle) (ht : w.life.tasks (.finalization f) = some t)
      (hd : t.done = false) (hl : LifeStep w.life (.drain f) life)
      (hb : life.drained f ≠ some true) : ServerStep cfg w (.drain f) { w with life := life }
  | drained (f : Nat) (t : Task) (life : Lifecycle) (ht : w.life.tasks (.finalization f) = some t)
      (hd : t.done = false) (hl : LifeStep w.life (.drain f) life)
      (hb : life.drained f = some true) :
      ServerStep cfg w (.drain f)
        ({ w with life := life }.setThread (.sealing f) (.running (.sealing t.session)))
  | close (f : Nat) (t : Task) (r : Ending) (life : Lifecycle)
      (ht : w.life.tasks (.finalization f) = some t) (hd : t.done = false)
      (hr : t.due = true ∧ r = .cancelled ∨
        t.due = false ∧ (w.threads (.sealing f) = some (.finished (.ok ())) ∧ r = .returned ∨
          ∃ x, w.threads (.sealing f) = some (.finished (.error x)) ∧ r = .raised))
      (hl : LifeStep w.life (.close f r) life) :
      ServerStep cfg w (.close f) { w with life := life }
  | delete (session : String) (life : Lifecycle) (hl : LifeStep w.life (.delete session) life) :
      ServerStep cfg w (.delete session)
        { w with life := life, recorder := w.recorder.deleteSession w.now session }
  | release (d : Nat) (raising : List String) (t : Task) (life : Lifecycle)
      (ht : w.life.tasks (.deletion d) = some t) (hd : t.done = false)
      (hl : LifeStep w.life (.release d raising) life) :
      ServerStep cfg w (.release d raising)
        { w with
          life := life
          provider := ((w.life.toRelease t.session).filter (· ∉ raising)).foldl
            (fun p x => p.releaseSession x) w.provider
          releases := fun x =>
            if x ∈ (w.life.toRelease t.session).filter (· ∉ raising) then w.releases x + 1
            else w.releases x }
  | disconnect (n : Nat) (life : Lifecycle) (hl : LifeStep w.life (.disconnect n) life) :
      ServerStep cfg w (.disconnect n) { w with life := life }
  | unlock (n : Nat) (life : Lifecycle) (hl : LifeStep w.life (.unlock n) life) :
      ServerStep cfg w (.unlock n) { w with life := life }
  | untrack (n : Nat) (life : Lifecycle) (hl : LifeStep w.life (.untrack n) life) :
      ServerStep cfg w (.untrack n) { w with life := life }
  | cancelAll (d : Nat) (life : Lifecycle) (hl : LifeStep w.life (.cancelAll d) life) :
      ServerStep cfg w (.cancelAll d) { w with life := life }
  | forget (d : Nat) (life : Lifecycle) (hl : LifeStep w.life (.forget d) life) :
      ServerStep cfg w (.forget d) { w with life := life }

namespace LLMProxyServer

theorem lifeOnly_some {le : LifeEvent} (h : w.lifeOnly le = some w') :
    ∃ life, LifeStep w.life le life ∧ w' = { w with life := life } := by
  obtain ⟨life, hl, rfl⟩ := Option.map_eq_some_iff.mp h
  exact ⟨life, step_life hl, rfl⟩

theorem step_chat {session agent : String} {body : GenerateArgs}
    (h : w.chat cfg session agent body = .ok w') :
    ServerStep cfg w (.chat session agent body) w' := by
  unfold chat at h
  split at h
  · cases h
  · next hid =>
    split at h
    · cases h
    · next hd =>
      split at h
      · cases h
      · next model hm =>
        split at h
        · cases h
        · cases h
        · split at h
          · cases h
          · split at h
            · cases h
            · next life hl =>
              cases h
              simp only [Bool.or_eq_true, Bool.not_eq_true', not_or, Bool.not_eq_false] at hid
              exact .chat session agent body model hid.1 (by simpa using hd) hm life (step_life hl)

theorem step_thread {t : ThreadId} {fault : Option RecordFault} {i : Awaited}
    (hst : Staged w) (h : w.threadStep cfg t fault i = some w') :
    ServerStep cfg w (.thread t fault i) w' := by
  unfold threadStep at h
  split at h
  · next work ht =>
    cases work with
    | record session d =>
      cases h
      exact .record t fault i session d ht
    | mark session agent messages promptIds ids =>
      cases h
      exact .mark t fault i session agent messages promptIds ids ht
    | sealing session =>
      simp only [perform] at h
      split at h
      · next r hr =>
        cases h
        exact .sealed t fault i session r ht hr
      · next x hr =>
        cases h
        exact .unsealed t fault i session x ht hr
    | update stream g => exact absurd ht (hst.updates t stream g)
  · cases h

theorem step_close {f : Nat} (h : w.close f = some w') : ServerStep cfg w (.close f) w' := by
  unfold close at h
  split at h
  · cases h
  · next t ht =>
    obtain ⟨ht, hd⟩ := Lifecycle.running_some.mp ht
    simp only at h
    split at h
    · cases h
    · next r hr =>
      obtain ⟨life, hl, rfl⟩ := Option.map_eq_some_iff.mp h
      refine .close f t r life ht hd ?_ (step_life hl)
      split at hr
      · next hdue =>
        cases hr
        exact .inl ⟨hdue, rfl⟩
      · next hdue =>
        have hdue : t.due = false := by simpa using hdue
        split at hr
        · next hseal =>
          cases hr
          exact .inr ⟨hdue, .inl ⟨hseal, rfl⟩⟩
        · next x hseal =>
          cases hr
          exact .inr ⟨hdue, .inr ⟨x, hseal, rfl⟩⟩
        · cases hr

/-- **Every event the server takes is one of these.** -/
theorem step_server (hsound : Sound w.life) (hst : Staged w)
    (h : w.step cfg e = some w') : ServerStep cfg w e w' := by
  -- what an event does to the tasks is a step of their machine (`step_life`); pipelines and threads
  -- have their own inversions
  cases e with
  | tick d =>
    simp only [step] at h
    split at h
    · next hd =>
      cases h
      exact .tick d hd
    · cases h
  | capture enabled =>
    cases h
    exact .capture enabled
  | sampling overrides =>
    simp only [step] at h
    split at h
    · cases h
    · next p hp =>
      cases h
      exact .sampling overrides p hp
  | chat session agent body =>
    simp only [step] at h
    split at h
    · cases h
    · next w' hw =>
      cases h
      exact step_chat hw
  | acquire n =>
    obtain ⟨life, hl, rfl⟩ := Option.map_eq_some_iff.mp h
    exact .acquire n life (step_life hl)
  | disconnect n =>
    obtain ⟨life, hl, rfl⟩ := lifeOnly_some h
    exact .disconnect n life hl
  | leave n =>
    simp only [step, leave] at h
    split at h
    · cases h
    · next t ht =>
      obtain ⟨ht, hd⟩ := Lifecycle.running_some.mp ht
      split at h
      · cases h
      · next r answer ho =>
        obtain ⟨life, hl, rfl⟩ := Option.map_eq_some_iff.mp h
        exact .leave n t r answer life ht hd ho (step_life hl)
  | turn n i =>
    obtain ⟨t, a, stage, stage', hp, hm⟩ :=
      turnStep_moves (hst.own n) (fun _ hg => hst.draining_waits hg) h
    exact .turn n i t a stage stage' w' hp hm
  | interrupt n =>
    -- a pipeline that drains is not cancelled again
    obtain ⟨t, a, stage, hp, hdue, hi⟩ := interruptTurn_interrupts (fun _ _ => hst.once hsound) h
    exact .interrupt n t a stage w' hp hdue hi
  | unlock n =>
    obtain ⟨life, hl, rfl⟩ := lifeOnly_some h
    exact .unlock n life hl
  | untrack n =>
    obtain ⟨life, hl, rfl⟩ := lifeOnly_some h
    exact .untrack n life hl
  | thread t fault i => exact step_thread hst h
  | finalize session =>
    simp only [step, finalize] at h
    split at h
    · cases h
    · next hg =>
      obtain ⟨life, hl, rfl⟩ := Option.map_eq_some_iff.mp h
      simp only [Bool.or_eq_true, not_or, Bool.not_eq_true] at hg
      refine .finalize session life hg.1 (fun hnone => ?_) (step_life hl)
      rw [hnone] at hg
      cases hg.2
  | drain f =>
    simp only [step, drain] at h
    split at h
    · next t life ht hl =>
      obtain ⟨ht, hd⟩ := Lifecycle.running_some.mp ht
      cases h
      split
      · next hb => exact .drained f t life ht hd (step_life hl) hb
      · next hb => exact .drain f t life ht hd (step_life hl) hb
    · cases h
  | close f => exact step_close h
  | delete session =>
    obtain ⟨life, hl, rfl⟩ := Option.map_eq_some_iff.mp h
    exact .delete session life (step_life hl)
  | cancelAll d =>
    obtain ⟨life, hl, rfl⟩ := lifeOnly_some h
    exact .cancelAll d life hl
  | release d raising =>
    simp only [step, release] at h
    split at h
    · next t life ht hl =>
      obtain ⟨ht, hd⟩ := Lifecycle.running_some.mp ht
      cases h
      exact .release d raising t life ht hd (step_life hl)
    · cases h
  | forget d =>
    obtain ⟨life, hl, rfl⟩ := lifeOnly_some h
    exact .forget d life hl

end LLMProxyServer

/-! ## 3. The tasks of the server -/

/-- The tombstone of a session lasts as long as its deletion: it is not served while it is being
    deleted. -/
def LLMProxyServer.Timely (w : LLMProxyServer) (session : String) : Prop :=
  w.life.Deleting session → w.isDeleted session = true

/-- Which event of the server an event of its tasks belongs to. -/
def LifeEvent.From (le : LifeEvent) (e : ServerEvent) : Prop :=
  match le with
  | .admission session agent => ∃ body, e = .chat session agent body
  | .acquire n => e = .acquire n
  | .disconnect n => e = .disconnect n
  | .leave n _ => e = .leave n
  | .interrupt n => e = .interrupt n
  | .finish n _ => e = .interrupt n ∨ ∃ i, e = .turn n i
  | .unlock n => e = .unlock n
  | .untrack n => e = .untrack n
  | .finalize session => e = .finalize session
  | .drain f => e = .drain f
  | .close f _ => e = .close f
  | .delete session => e = .delete session
  | .cancelAll d => e = .cancelAll d
  | .release d raising => e = .release d raising
  | .forget d => e = .forget d

/-- **On the tasks** a step of the server is one of their own steps at most, and an orderly one. -/
theorem ServerStep.life (h : ServerStep cfg w e w') :
    w'.life = w.life ∨ ∃ le, LifeStep w.life le w'.life ∧ le.From e ∧ ValidIds le ∧
      ∀ s, w.Timely s → Orderly w.life s le := by
  -- only an admission and a finalization depend on the tombstone
  have other : ∀ le, LifeStep w.life le w'.life → le.From e → (∀ s agent, le ≠ .admission s agent) →
      (∀ s, le ≠ .finalize s) → w'.life = w.life ∨ ∃ le, LifeStep w.life le w'.life ∧ le.From e ∧
        ValidIds le ∧ ∀ s, w.Timely s → Orderly w.life s le := by
    intro le hl he ha hf
    refine .inr ⟨le, hl, he, ?_, fun _ _ => ?_⟩
    · cases le <;> first | exact trivial | exact absurd rfl (ha _ _)
    · cases le <;> first | exact trivial | exact absurd rfl (ha _ _) | exact absurd rfl (hf _)
  cases h with
  | tick | capture | sampling | record | mark | sealed | unsealed => exact .inl rfl
  | chat session agent body model hs hd hm life hl =>
    refine .inr ⟨_, hl, ⟨body, rfl⟩, hs, fun s ht he hdel => ?_⟩
    rw [← he] at ht
    rw [ht hdel] at hd
    cases hd
  | finalize session life hd hr hl =>
    refine .inr ⟨_, hl, rfl, trivial, fun s ht he hdel => ?_⟩
    rw [← he] at ht
    rw [ht hdel] at hd
    cases hd
  | turn n i t a stage stage' w' hp hm =>
    rcases hm.life with ⟨-, hl⟩ | ⟨r, answer, -, -, hl⟩
    · exact .inl hl
    · exact other _ hl (.inr ⟨i, rfl⟩) (by simp) (by simp)
  | interrupt n t a stage w' hp hdue hi =>
    cases hi with
    | drains g life hs hw hl => exact other _ hl rfl (by simp) (by simp)
    | ends w' hm =>
      rcases hm.life with ⟨hno, -⟩ | ⟨r, answer, -, -, hl⟩
      · cases hno
      · exact other _ hl (.inl rfl) (by simp) (by simp)
  | delete session life hl => exact other _ hl rfl (by simp) (by simp)
  | drain f t life ht hd hl hb => exact other _ hl rfl (by simp) (by simp)
  | drained f t life ht hd hl hb => exact other _ hl rfl (by simp) (by simp)
  | acquire n life hl => exact other _ hl rfl (by simp) (by simp)
  | leave n t r answer life ht hd ho hl => exact other _ hl rfl (by simp) (by simp)
  | close f t r life ht hd hr hl => exact other _ hl rfl (by simp) (by simp)
  | release d raising t life ht hd hl => exact other _ hl rfl (by simp) (by simp)
  | disconnect n life hl => exact other _ hl rfl (by simp) (by simp)
  | unlock n life hl => exact other _ hl rfl (by simp) (by simp)
  | untrack n life hl => exact other _ hl rfl (by simp) (by simp)
  | cancelAll d life hl => exact other _ hl rfl (by simp) (by simp)
  | forget d life hl => exact other _ hl rfl (by simp) (by simp)

theorem Sound.server (h : Sound w.life) (hs : ServerStep cfg w e w') : Sound w'.life := by
  rcases hs.life with he | ⟨le, hl, -, hw, -⟩
  · exact he ▸ h
  · exact h.step hl hw

theorem Settled.server {s : String} (hsound : Sound w.life) (h : Settled w.life s)
    (hs : ServerStep cfg w e w') (ht : w.Timely s) : Settled w'.life s := by
  rcases hs.life with he | ⟨le, hl, -, -, ho⟩
  · exact he ▸ h
  · exact h.step hsound.numbered hsound.registered hl (ho s ht)

theorem Settles.server (hsound : Sound w.life) (h : Settles w.life) (hs : ServerStep cfg w e w')
    (ht : ∀ s, w.Timely s) : Settles w'.life := by
  rcases hs.life with he | ⟨le, hl, -, -, ho⟩
  · exact he ▸ h
  · exact h.step hsound hl fun s => ho s (ht s)

/-! ## 4. Every step keeps the stages -/

namespace Staged

/-- No pipeline is touched. -/
theorem kept (h : Staged w) (hturns : w'.turns = w.turns) (hbodies : w'.bodies = w.bodies)
    (hthreads : ∀ t stream g, w'.threads t ≠ some (.running (.update stream g)))
    (hadm : ∀ n a, w'.life.admitted n = some a → w.life.admitted n = some a)
    (hfate : ∀ n, (w'.life.tasks (.turn n)).map Task.fate =
      (w.life.tasks (.turn n)).map Task.fate) : Staged w' where
  stage n t' ht' := by
    have hf := hfate n
    rw [ht', Option.map_some] at hf
    obtain ⟨t, ht, he⟩ := Option.map_eq_some_iff.mp hf.symm
    obtain ⟨s, hs, hfit⟩ := h.stage n t ht
    exact ⟨s, by rw [hturns, hs], hfit.of_fate he.symm⟩
  task n s hs := by
    rw [hturns] at hs
    obtain ⟨t, ht⟩ := h.task n s hs
    have hf := hfate n
    rw [ht, Option.map_some] at hf
    obtain ⟨t', ht', -⟩ := Option.map_eq_some_iff.mp hf
    exact ⟨t', ht'⟩
  own n a s ha hs := h.own n a s (hadm n a ha) (hturns ▸ hs)
  bodies n a ha := by
    rw [hbodies]
    exact h.bodies n a (hadm n a ha)
  updates := hthreads

/-- A step of the tasks that decides on no pipeline and admits nobody. -/
theorem kept_life (h : Staged w) {le : LifeEvent} (hturns : w'.turns = w.turns)
    (hbodies : w'.bodies = w.bodies)
    (hthreads : ∀ t stream g, w'.threads t ≠ some (.running (.update stream g)))
    (hl : LifeStep w.life le w'.life) (hadm : ∀ session agent, le ≠ .admission session agent)
    (ha : ∀ n, le ≠ .acquire n) (hf : ∀ n r, le ≠ .finish n r) (hi : ∀ n, le ≠ .interrupt n) :
    Staged w' :=
  h.kept hturns hbodies hthreads
    (fun _ _ hadm' => (hl.admitted_or hadm').resolve_right fun ⟨s, agent, he, _⟩ =>
      hadm s agent he)
    fun n => hl.turn_fate (ha n) (hf n) (hi n)

theorem finished_updates (h : Staged w) (t : ThreadId) (result : Except PyError Unit)
    (id : ThreadId) (stream : String) (g : Generation) :
    Function.update w.threads t (some (.finished result)) id ≠ some (.running (.update stream g)) := by
  rw [Function.update_apply]
  split
  · intro he
    cases he
  · exact h.updates id stream g

/-- One pipeline goes on. -/
theorem turned (h : Staged w) {n : Nat} {s' : TurnStage} {t' : Task}
    (hturns : w'.turns = Function.update w.turns n (some s')) (hbodies : w'.bodies = w.bodies)
    (hthreads : ∀ t stream g, w'.threads t ≠ some (.running (.update stream g)))
    (hadm : ∀ n a, w'.life.admitted n = some a → w.life.admitted n = some a)
    (hfate : ∀ m, m ≠ n → (w'.life.tasks (.turn m)).map Task.fate =
      (w.life.tasks (.turn m)).map Task.fate)
    (ht' : w'.life.tasks (.turn n) = some t') (hfit : s'.Fits t')
    (hown : ∀ a, w.life.admitted n = some a → s'.Own a.stream) : Staged w' where
  stage m u hu := by
    rw [hturns]
    rcases eq_or_ne m n with rfl | hne
    · rw [ht'] at hu
      cases hu
      exact ⟨s', Function.update_self _ _ _, hfit⟩
    · have hf := hfate m hne
      rw [hu, Option.map_some] at hf
      obtain ⟨t, ht, he⟩ := Option.map_eq_some_iff.mp hf.symm
      obtain ⟨s, hs, hfit⟩ := h.stage m t ht
      exact ⟨s, by rw [Function.update_of_ne hne, hs], hfit.of_fate he.symm⟩
  task m s hs := by
    rcases eq_or_ne m n with rfl | hne
    · exact ⟨t', ht'⟩
    · rw [hturns, Function.update_of_ne hne] at hs
      obtain ⟨t, ht⟩ := h.task m s hs
      have hf := hfate m hne
      rw [ht, Option.map_some] at hf
      obtain ⟨u, hu, -⟩ := Option.map_eq_some_iff.mp hf
      exact ⟨u, hu⟩
  own m a s ha hs := by
    rw [hturns] at hs
    rcases eq_or_ne m n with rfl | hne
    · rw [Function.update_self] at hs
      cases hs
      exact hown a (hadm m a ha)
    · rw [Function.update_of_ne hne] at hs
      exact h.own m a s (hadm m a ha) hs
  bodies m a ha := by
    rw [hbodies]
    exact h.bodies m a (hadm m a ha)
  updates := hthreads

/-- What a step that decides on pipeline `n` does to its task. -/
theorem finish_task {l l' : Lifecycle} {n : Nat} {t : Task} {r : Ending}
    (hl : LifeStep l (.finish n r) l') (ht : l.tasks (.turn n) = some t) :
    l'.tasks (.turn n) = some (t.finish r) := by
  cases hl with
  | finish _ u _ hu hd =>
    rw [ht] at hu
    cases hu
    exact Function.update_self _ _ _

theorem admitted_of {l l' : Lifecycle} {le : LifeEvent} (hl : LifeStep l le l')
    (hle : ∀ session agent, le ≠ .admission session agent) {n : Nat} {a : Admitted}
    (ha : l'.admitted n = some a) : l.admitted n = some a :=
  (hl.admitted_or ha).resolve_right fun ⟨s, agent, he, _⟩ => hle s agent he

theorem moved (h : Staged w) {n : Nat} {t : Task} {a : Admitted} {stage s' : TurnStage}
    (hp : w.Piece n t a stage) (hm : w.Moves n a stage s' w') : Staged w' := by
  have hthreads : ∀ id stream g, w'.threads id ≠ some (.running (.update stream g)) := by
    intro id stream g
    have hset : ∀ j work, (∀ x g, work ≠ .update x g) → Function.update w.threads j
        (some (.running work)) id ≠ some (.running (.update stream g)) := by
      intro j work hwork
      rw [Function.update_apply]
      split
      · intro he
        cases he
        exact hwork _ _ rfl
      · exact h.updates id stream g
    cases hm.threads with
    | same _ _ _ he =>
      rw [he]
      exact h.updates id stream g
    | record _ _ body he =>
      rw [he]
      exact hset _ _ fun _ _ he => by cases he
    | mark _ _ _ _ he =>
      rw [he]
      exact hset _ _ fun _ _ he => by cases he
  have hown : ∀ b, w.life.admitted n = some b → s'.Own b.stream := by
    intro b hb
    rw [hp.admitted] at hb
    cases hb
    exact hm.own
  rcases hm.life with ⟨hno, hlife⟩ | ⟨r, answer, rfl, hr, hlife⟩
  · refine h.turned hm.turns hm.bodies hthreads (fun _ _ ha => hlife ▸ ha) (fun _ _ => by rw [hlife])
      (hlife ▸ hp.task) (.of_running hp.runs hno fun g hg => ?_) hown
    obtain ⟨hwait, g₀, rfl⟩ := hm.draining g hg
    obtain ⟨s, hs, hfit⟩ := h.stage n t hp.task
    rw [hp.turn] at hs
    cases hs
    exact ⟨hfit.of_draining.2.1, hwait⟩
  · refine h.turned hm.turns hm.bodies hthreads
      (fun _ _ => admitted_of hlife fun _ _ he => by cases he)
      (fun m hne => hlife.turn_fate (fun he => by cases he) (fun r' he => ?_)
        (fun he => by cases he)) (finish_task hlife hp.task) (.of_finish hr) hown
    cases he
    exact hne rfl

theorem seal_updates (h : Staged w) (f : Nat) (session : String) (id : ThreadId) (stream : String)
    (g : Generation) : Function.update w.threads (.sealing f)
      (some (.running (.sealing session))) id ≠ some (.running (.update stream g)) := by
  rw [Function.update_apply]
  split
  · intro he
    cases he
  · exact h.updates id stream g

/-- Behind a step of the tasks that starts, ends and admits nothing. -/
theorem tasks_only (h : Staged w) {le : LifeEvent} {life : Lifecycle}
    (hl : LifeStep w.life le life) (hle : (∀ session agent, le ≠ .admission session agent) ∧
      (∀ n, le ≠ .acquire n) ∧ (∀ n r, le ≠ .finish n r) ∧ ∀ n, le ≠ .interrupt n) :
    Staged { w with life := life } :=
  h.kept_life rfl rfl h.updates hl hle.1 hle.2.1 hle.2.2.1 hle.2.2.2

theorem step (hsound : Sound w.life) (h : Staged w) (hs : ServerStep cfg w e w') : Staged w' := by
  cases hs with
  | tick | capture | sampling =>
    exact h.kept rfl rfl h.updates (fun _ _ ha => ha) (fun _ => rfl)
  | record | mark | sealed | unsealed =>
    exact h.kept rfl rfl (h.finished_updates _ _) (fun _ _ ha => ha) (fun _ => rfl)
  | chat session agent body model hs hd hm life hl =>
    -- the new request has no pipeline yet
    have hnew : w.turns w.life.created = none := by
      cases hturn : w.turns w.life.created with
      | none => rfl
      | some s =>
        obtain ⟨t, ht⟩ := h.task _ s hturn
        exact absurd (hsound.numbered.tasks _ t ht) (Nat.lt_irrefl _)
    refine ⟨fun n t ht => ?_, fun n s hs => ?_, fun n a s ha hs => ?_, fun n a ha => ?_, h.updates⟩
    · have hf := hl.turn_fate (n := n) (fun he => by cases he) (fun _ he => by cases he)
        (fun he => by cases he)
      rw [ht, Option.map_some] at hf
      obtain ⟨u, hu, he⟩ := Option.map_eq_some_iff.mp hf.symm
      obtain ⟨s, hs, hfit⟩ := h.stage n u hu
      exact ⟨s, hs, hfit.of_fate he.symm⟩
    · obtain ⟨t, ht⟩ := h.task n s hs
      obtain ⟨t', ht', -⟩ := hsound.numbered.exists_after hl ht
      exact ⟨t', ht'⟩
    · rcases hl.admitted_or ha with ha | ⟨s', agent', he, rfl, rfl⟩
      · exact h.own n a s ha hs
      · rw [show w.turns w.life.created = some s from hs] at hnew
        cases hnew
    · rcases hl.admitted_or ha with ha | ⟨s', agent', he, rfl, rfl⟩
      · obtain ⟨b, hb⟩ := h.bodies n a ha
        refine ⟨b, (Function.update_of_ne ?_ _ _).trans hb⟩
        exact Nat.ne_of_lt (hsound.numbered.admitted n a ha).1
      · exact ⟨body, Function.update_self _ _ _⟩
  | acquire n life hl =>
    cases hl with
    | acquire _ t a ht hd hdue ha hq hfree =>
      have hl : LifeStep w.life (.acquire n) (w.life.acquire n a) :=
        .acquire n t a ht hd hdue ha hq hfree
      refine h.turned rfl rfl h.updates (fun _ _ => admitted_of hl fun _ _ he => by cases he)
        (fun m hne => hl.turn_fate (fun he => ?_) (fun _ he => by cases he)
          (fun he => by cases he)) (Function.update_self _ _ _) trivial
        (fun _ _ => LLMProxyServer.own_of_none rfl)
      cases he
      exact hne rfl
  | turn n i t a stage stage' w' hp hm => exact h.moved hp hm
  | interrupt n t a stage w' hp hdue hi =>
    cases hi with
    | drains g life hs hw hl =>
      have htask : life.tasks (.turn n) = some t.interrupt := by
        cases hl with
        | interrupt _ u hu hud hudue =>
          rw [hp.task] at hu
          cases hu
          exact Function.update_self _ _ _
      refine h.turned rfl rfl h.updates (fun _ _ => admitted_of hl fun _ _ he => by cases he)
        (fun m hne => hl.turn_fate (fun he => by cases he) (fun _ he => by cases he)
          (fun he => ?_)) htask (.of_running hp.runs rfl fun g' hg' => ?_) (fun b hb => ?_)
      · cases he
        exact hne rfl
      · cases hg'
        exact ⟨rfl, hw⟩
      · intro g' hg'
        cases hg'
        have hown := h.own n b stage hb hp.turn
        rw [hs] at hown
        exact hown g rfl
    | ends w' hm => exact h.moved hp hm
  | drained f t life ht hd hl hb =>
    refine h.kept_life rfl rfl (fun id stream g => ?_) hl (fun _ _ he => by cases he)
      (fun _ he => by cases he) (fun _ _ he => by cases he) (fun _ he => by cases he)
    exact h.seal_updates f t.session id stream g
  | drain f t life ht hd hl hb => exact h.tasks_only hl (by simp)
  | leave n t r answer life ht hd ho hl =>
    exact h.kept_life rfl rfl h.updates hl (fun _ _ he => by cases he) (fun _ he => by cases he)
      (fun _ _ he => by cases he) (fun _ he => by cases he)
  | delete session life hl =>
    exact h.kept_life rfl rfl h.updates hl (fun _ _ he => by cases he) (fun _ he => by cases he)
      (fun _ _ he => by cases he) (fun _ he => by cases he)
  | release d raising t life ht hd hl =>
    exact h.kept_life rfl rfl h.updates hl (fun _ _ he => by cases he) (fun _ he => by cases he)
      (fun _ _ he => by cases he) (fun _ he => by cases he)
  | finalize session life hd hr hl => exact h.tasks_only hl (by simp)
  | close f t r life ht hd hr hl => exact h.tasks_only hl (by simp)
  | disconnect n life hl => exact h.tasks_only hl (by simp)
  | unlock n life hl => exact h.tasks_only hl (by simp)
  | untrack n life hl => exact h.tasks_only hl (by simp)
  | cancelAll d life hl => exact h.tasks_only hl (by simp)
  | forget d life hl => exact h.tasks_only hl (by simp)

end Staged

/-! ## 5. Every run -/

theorem sound_run {P : LLMProxyServer → ServerEvent → LLMProxyServer → Prop} {p : Provider}
    (h : Steps (LLMProxyServer.step cfg) P (.start p) w) : Sound w.life ∧ Staged w := by
  refine h.inv (I := fun w => Sound w.life ∧ Staged w) ⟨.empty, .start p⟩
    fun t e u ⟨hsound, hst⟩ hs _ => ?_
  have hstep := LLMProxyServer.step_server hsound hst hs
  exact ⟨hsound.server hstep, hst.step hsound hstep⟩

/-- **An invariant of the server** holds along every run, if every step keeps it. -/
theorem server_run {P : LLMProxyServer → ServerEvent → LLMProxyServer → Prop} {p : Provider}
    {I : LLMProxyServer → Prop} (h : Steps (LLMProxyServer.step cfg) P (.start p) w)
    (h0 : I (.start p)) (hI : ∀ t e u, Sound t.life → Staged t → P t e u → I t →
      ServerStep cfg t e u → I u) : I w := by
  have hall : (Sound w.life ∧ Staged w) ∧ I w := by
    refine h.inv (I := fun w => (Sound w.life ∧ Staged w) ∧ I w) ⟨⟨.empty, .start p⟩, h0⟩
      fun t e u ⟨⟨hsound, hst⟩, hi⟩ hs hp => ?_
    have hstep := LLMProxyServer.step_server hsound hst hs
    exact ⟨⟨hsound.server hstep, hst.step hsound hstep⟩, hI t e u hsound hst hp hi hstep⟩
  exact hall.2

/-- `Timely`, as it can be looked up. -/
def LLMProxyServer.timely (w : LLMProxyServer) : Bool :=
  (List.range w.life.created).all fun d =>
    match w.life.tasks (.deletion d) with
    | none => true
    | some t => t.done || w.isDeleted t.session

theorem LLMProxyServer.timely_iff (hn : Numbered w.life) : w.timely = true ↔ ∀ s, w.Timely s := by
  unfold timely Timely Lifecycle.Deleting
  simp only [List.all_eq_true, List.mem_range]
  constructor
  · rintro h _ ⟨d, t, ht, hd, rfl⟩
    have hlook := h d (hn.tasks _ t ht)
    simpa [ht, hd] using hlook
  · intro h d _
    cases ht : w.life.tasks (.deletion d) with
    | none => rfl
    | some t =>
      cases hd : t.done with
      | true => simp [hd]
      | false => simpa [hd] using h t.session ⟨d, t, ht, hd, rfl⟩

/-- A list of events that evaluates to timely states is a timely run. -/
theorem timely_exec {p : Provider} {es : List ServerEvent}
    (h : exec (LLMProxyServer.step cfg) (fun w _ _ => w.timely) (.start p) es = some w) :
    Steps (LLMProxyServer.step cfg) (fun w _ _ => ∀ s, w.Timely s) (.start p) w := by
  have hrun := (exec_steps h).strengthen (I := fun w => Sound w.life ∧ Staged w)
    ⟨.empty, .start p⟩ fun t e u ⟨hsound, hst⟩ hs _ =>
      have hstep := LLMProxyServer.step_server hsound hst hs
      ⟨hsound.server hstep, hst.step hsound hstep⟩
  exact hrun.1.mono fun t _ _ ⟨⟨hsound, _⟩, ht⟩ =>
    (LLMProxyServer.timely_iff hsound.numbered).mp ht

end RolloutProxy
