/-
  File:      RolloutProxy/Service/Lifecycle.lean
  Subject:   THE TASKS OF THE PROXY SERVER (service.py, `LLMProxyServer`): admission, turn locks,
             completion pipelines, finalization and deletion, as the event loop runs them.

  * A task is cut where it awaits. `due` is a cancellation that was requested, `interrupted` one
    that was delivered to a task that goes on behind its `except`.
  * The pipeline of request `n` is task `turn n`; its two done-callbacks are events of their own
    (`unlock`, `untrack`). Which waiter gets a free turn lock is left open.
  * What a pipeline computes, the recorder, the provider and the clock stand in Server.lean: here
    an admission is refused for a finalization only.
  * `LifeStep` says once what each event needs and does (`step_life`); every invariant is read off
    it.
-/
import RolloutProxy.Lib.Members
import RolloutProxy.Lib.Run
import RolloutProxy.Service.Ids
import Mathlib.Logic.Function.Basic

namespace RolloutProxy

/-! ## 1. Tasks -/

inductive TaskId where
  /-- the task of a completion request -/
  | request (n : Nat)
  /-- its shielded completion pipeline -/
  | turn (n : Nat)
  | finalization (f : Nat)
  | deletion (d : Nat)
  deriving DecidableEq

inductive Ending where
  | returned
  | raised
  | cancelled
  deriving DecidableEq

structure Task where
  session : String
  due : Bool
  interrupted : Bool
  ending : Option Ending

namespace Task

def fresh (session : String) : Task := ⟨session, false, false, none⟩

/-- `task.done()`. -/
def done (t : Task) : Bool := t.ending.isSome

/-- `task.cancel()`. -/
def cancel (t : Task) : Task := if t.done then t else { t with due := true }

def finish (t : Task) (e : Ending) : Task := { t with due := false, ending := some e }

/-- The `CancelledError` is delivered. -/
def interrupt (t : Task) : Task := { t with due := false, interrupted := true }

@[simp] theorem fresh_done (s : String) : (fresh s).done = false := rfl
@[simp] theorem finish_done (t : Task) (e : Ending) : (t.finish e).done = true := rfl
@[simp] theorem interrupt_done (t : Task) : t.interrupt.done = t.done := rfl
@[simp] theorem fresh_session (s : String) : (fresh s).session = s := rfl
@[simp] theorem finish_session (t : Task) (e : Ending) : (t.finish e).session = t.session := rfl
@[simp] theorem interrupt_session (t : Task) : t.interrupt.session = t.session := rfl

@[simp] theorem cancel_done (t : Task) : t.cancel.done = t.done := by
  unfold cancel
  split <;> rfl

@[simp] theorem cancel_session (t : Task) : t.cancel.session = t.session := by
  unfold cancel
  split <;> rfl

@[simp] theorem cancel_interrupted (t : Task) : t.cancel.interrupted = t.interrupted := by
  unfold cancel
  split <;> rfl

end Task

/-- An admitted completion request. -/
structure Admitted where
  session : String
  agent : String
  /-- the lock object it waits for -/
  lock : Nat

def Admitted.stream (a : Admitted) : String := streamId a.session a.agent

structure Lifecycle where
  /-- request ids, finalizations, deletions and lock objects are numbered in one row -/
  created : Nat
  tasks : TaskId → Option Task
  admitted : Nat → Option Admitted
  /-- the pipeline whose done-callback releases a held lock object -/
  holders : Nat → Option Nat
  turnLocks : Dict String Nat
  sessionStreams : Dict String (List String)
  sessionTasks : Dict String (List TaskId)
  /-- the finalization whose event `notify` sets -/
  workChanged : Dict String Nat
  eventSet : Nat → Bool
  /-- the last check of a finalization that has begun: was no task of the session left? -/
  drained : Nat → Option Bool
  finalizationTasks : Dict String Nat
  deletionTasks : Dict String Nat
  /-- the tasks a deletion waits for -/
  awaited : Nat → Option (List TaskId)

inductive LifeEvent where
  | admission (session agent : String)
  /-- request `n` gets its lock and starts its pipeline -/
  | acquire (n : Nat)
  /-- the caller of request `n` gives up -/
  | disconnect (n : Nat)
  | leave (n : Nat) (e : Ending)
  /-- a cancellation reaches pipeline `n`, which goes on -/
  | interrupt (n : Nat)
  | finish (n : Nat) (e : Ending)
  | unlock (n : Nat)
  | untrack (n : Nat)
  | finalize (session : String)
  | drain (f : Nat)
  | close (f : Nat) (e : Ending)
  | delete (session : String)
  | cancelAll (d : Nat)
  /-- the streams are released; for those in `raising` the callback raises -/
  | release (d : Nat) (raising : List String)
  | forget (d : Nat)

namespace Lifecycle

def empty : Lifecycle where
  created := 0
  tasks := fun _ => none
  admitted := fun _ => none
  holders := fun _ => none
  turnLocks := ∅
  sessionStreams := ∅
  sessionTasks := ∅
  workChanged := ∅
  eventSet := fun _ => false
  drained := fun _ => none
  finalizationTasks := ∅
  deletionTasks := ∅
  awaited := fun _ => none

variable (l : Lifecycle)

/-! ## 2. The operations -/

def setTask (id : TaskId) (t : Task) : Lifecycle :=
  { l with tasks := Function.update l.tasks id (some t) }

/-- The task exists and has not ended. -/
def live (id : TaskId) : Bool := (l.tasks id).any fun t => !t.done

/-- The events behind `notify` of `_track_session_task`. -/
def notified (session : String) : Nat → Bool :=
  match l.workChanged.get? session with
  | none => l.eventSet
  | some f => Function.update l.eventSet f true

def notify (session : String) : Lifecycle := { l with eventSet := l.notified session }

/-- `_track_session_task`. -/
def track (session : String) (id : TaskId) : Lifecycle :=
  { l with sessionTasks := l.sessionTasks.addTo session id }.notify session

/-- `done` of `_track_session_task`. -/
def untrack (session : String) (id : TaskId) : Lifecycle :=
  { l with sessionTasks := l.sessionTasks.discard session id }.notify session

/-- The admission: the stream is tracked, the task is tracked, the lock is looked up. -/
def admission (session agent : String) : Lifecycle :=
  let stream := streamId session agent
  let lock := (l.turnLocks.get? stream).getD l.created
  { l with
    created := l.created + 1
    tasks := Function.update l.tasks (.request l.created) (some (.fresh session))
    admitted := Function.update l.admitted l.created (some ⟨session, agent, lock⟩)
    turnLocks := l.turnLocks.set stream lock
    sessionStreams := l.sessionStreams.addTo session stream }.track session (.request l.created)

/-- `_run_turn` behind `lock.acquire()`, up to its shield. -/
def acquire (n : Nat) (a : Admitted) : Lifecycle :=
  { l with
    tasks := Function.update l.tasks (.turn n) (some (.fresh a.session))
    holders := Function.update l.holders a.lock (some n) }.track a.session (.turn n)

/-- The request task ends; its `finally` untracks it. -/
def leave (n : Nat) (t : Task) (e : Ending) : Lifecycle :=
  (l.setTask (.request n) (t.finish e)).untrack t.session (.request n)

/-- `finalize_session` where no finalization is registered. -/
def finalize (session : String) : Lifecycle :=
  { l with
    created := l.created + 1
    tasks := Function.update l.tasks (.finalization l.created) (some (.fresh session))
    finalizationTasks := l.finalizationTasks.set session l.created }

/-- No tracked task of the session is under way. -/
def idle (session : String) : Bool := (l.sessionTasks.members session).all fun id => !l.live id

/-- One round of `_finalize_session`: the event is cleared, then the tasks are looked at. -/
def drain (f : Nat) (session : String) : Lifecycle :=
  { l with
    workChanged := if l.drained f = none then l.workChanged.set session f else l.workChanged
    eventSet := Function.update l.eventSet f false
    drained := Function.update l.drained f (some (l.idle session)) }

/-- `_finalize_session` ends; a coroutine that never began has no `finally` to run. -/
def close (f : Nat) (t : Task) (e : Ending) : Lifecycle :=
  { l with
    tasks := Function.update l.tasks (.finalization f) (some (t.finish e))
    workChanged := if l.drained f = none then l.workChanged else l.workChanged.erase t.session }

/-- `delete_session` where no deletion is under way. -/
def delete (session : String) : Lifecycle :=
  { l with
    created := l.created + 1
    tasks := Function.update l.tasks (.deletion l.created) (some (.fresh session))
    deletionTasks := l.deletionTasks.set session l.created }

/-- The tasks `_delete_session` cancels and waits for. -/
def toCancel (session : String) : List TaskId :=
  l.sessionTasks.members session ++
    ((l.finalizationTasks.get? session).map TaskId.finalization).toList

def cancelAll (d : Nat) (session : String) : Lifecycle :=
  { l with
    tasks := fun id =>
      if id ∈ l.toCancel session then (l.tasks id).map Task.cancel else l.tasks id
    awaited := Function.update l.awaited d (some (l.toCancel session)) }

/-- The streams `_delete_session` releases. -/
def toRelease (session : String) : List String :=
  match l.sessionStreams.members session with
  | [] => [session]
  | streams => streams

/-- The lock of every released stream is dropped; the bindings go if no callback raised. -/
def release (d : Nat) (t : Task) (raising : List String) : Lifecycle :=
  let streams := l.toRelease t.session
  let failed := streams.any (· ∈ raising)
  { l with
    tasks := Function.update l.tasks (.deletion d)
      (some (t.finish (if failed then .raised else .returned)))
    turnLocks := (streams.filter (· ∉ raising)).foldl (fun locks s => locks.erase s) l.turnLocks
    sessionStreams := if failed then l.sessionStreams else l.sessionStreams.erase t.session
    finalizationTasks :=
      if failed then l.finalizationTasks else l.finalizationTasks.erase t.session }

/-! ## 3. The machine -/

/-- Task `id` is under way, with these data. -/
def running (id : TaskId) : Option Task :=
  match l.tasks id with
  | some t => if t.done then none else some t
  | none => none

/-- The request waits for its lock still. -/
def queued (n : Nat) : Bool := (l.tasks (.turn n)).isNone

def step : LifeEvent → Option Lifecycle
  | .admission session agent =>
    if l.finalizationTasks.contains session then none else some (l.admission session agent)
  | .acquire n =>
    match l.running (.request n), l.admitted n with
    | some t, some a =>
      if !t.due ∧ l.queued n ∧ l.holders a.lock = none then some (l.acquire n a) else none
    | _, _ => none
  | .disconnect n => (l.running (.request n)).map fun t => l.setTask (.request n) t.cancel
  | .leave n e =>
    match l.running (.request n) with
    | some t =>
      if t.due ∨ (!l.queued n ∧ !l.live (.turn n)) then some (l.leave n t e) else none
    | none => none
  | .interrupt n =>
    match l.running (.turn n) with
    | some t => if t.due then some (l.setTask (.turn n) t.interrupt) else none
    | none => none
  | .finish n e => (l.running (.turn n)).map fun t => l.setTask (.turn n) (t.finish e)
  | .unlock n =>
    match l.tasks (.turn n), l.admitted n with
    | some t, some a =>
      if t.done ∧ l.holders a.lock = some n then
        some { l with holders := Function.update l.holders a.lock none }
      else none
    | _, _ => none
  | .untrack n =>
    match l.tasks (.turn n) with
    | some t =>
      if t.done ∧ .turn n ∈ l.sessionTasks.members t.session then
        some (l.untrack t.session (.turn n))
      else none
    | none => none
  | .finalize session =>
    if l.finalizationTasks.contains session then none else some (l.finalize session)
  | .drain f =>
    match l.running (.finalization f) with
    | some t =>
      if !t.due ∧ (l.drained f = none ∨ (l.drained f = some false ∧ l.eventSet f)) then
        some (l.drain f t.session)
      else none
    | none => none
  | .close f e =>
    match l.running (.finalization f) with
    | some t => if t.due ∨ l.drained f = some true then some (l.close f t e) else none
    | none => none
  | .delete session =>
    if l.deletionTasks.contains session then none else some (l.delete session)
  | .cancelAll d =>
    match l.running (.deletion d), l.awaited d with
    | some t, none => some (l.cancelAll d t.session)
    | _, _ => none
  | .release d raising =>
    match l.running (.deletion d), l.awaited d with
    | some t, some ids => if ids.all (!l.live ·) then some (l.release d t raising) else none
    | _, _ => none
  | .forget d =>
    match l.tasks (.deletion d) with
    | some t =>
      if t.done ∧ l.deletionTasks.get? t.session = some d then
        some { l with deletionTasks := l.deletionTasks.erase t.session }
      else none
    | none => none

end Lifecycle

/-! ## 4. What each event needs and does -/

variable {l l' : Lifecycle} {e : LifeEvent}

inductive LifeStep (l : Lifecycle) : LifeEvent → Lifecycle → Prop where
  | admission (session agent : String) (hf : l.finalizationTasks.get? session = none) :
      LifeStep l (.admission session agent) (l.admission session agent)
  | acquire (n : Nat) (t : Task) (a : Admitted) (ht : l.tasks (.request n) = some t)
      (hd : t.done = false) (hdue : t.due = false) (ha : l.admitted n = some a)
      (hq : l.tasks (.turn n) = none) (hfree : l.holders a.lock = none) :
      LifeStep l (.acquire n) (l.acquire n a)
  | disconnect (n : Nat) (t : Task) (ht : l.tasks (.request n) = some t) (hd : t.done = false) :
      LifeStep l (.disconnect n) (l.setTask (.request n) t.cancel)
  | leave (n : Nat) (t : Task) (e : Ending) (ht : l.tasks (.request n) = some t)
      (hd : t.done = false) (hleave : t.due = true ∨ ∃ u, l.tasks (.turn n) = some u ∧ u.done = true) :
      LifeStep l (.leave n e) (l.leave n t e)
  | interrupt (n : Nat) (t : Task) (ht : l.tasks (.turn n) = some t) (hd : t.done = false)
      (hdue : t.due = true) : LifeStep l (.interrupt n) (l.setTask (.turn n) t.interrupt)
  | finish (n : Nat) (t : Task) (e : Ending) (ht : l.tasks (.turn n) = some t)
      (hd : t.done = false) : LifeStep l (.finish n e) (l.setTask (.turn n) (t.finish e))
  | unlock (n : Nat) (t : Task) (a : Admitted) (ht : l.tasks (.turn n) = some t)
      (hd : t.done = true) (ha : l.admitted n = some a) (hh : l.holders a.lock = some n) :
      LifeStep l (.unlock n) { l with holders := Function.update l.holders a.lock none }
  | untrack (n : Nat) (t : Task) (ht : l.tasks (.turn n) = some t) (hd : t.done = true)
      (hm : .turn n ∈ l.sessionTasks.members t.session) :
      LifeStep l (.untrack n) (l.untrack t.session (.turn n))
  | finalize (session : String) (hf : l.finalizationTasks.get? session = none) :
      LifeStep l (.finalize session) (l.finalize session)
  | drain (f : Nat) (t : Task) (ht : l.tasks (.finalization f) = some t) (hd : t.done = false)
      (hdue : t.due = false)
      (hw : l.drained f = none ∨ l.drained f = some false ∧ l.eventSet f = true) :
      LifeStep l (.drain f) (l.drain f t.session)
  | close (f : Nat) (t : Task) (e : Ending) (ht : l.tasks (.finalization f) = some t)
      (hd : t.done = false) (hc : t.due = true ∨ l.drained f = some true) :
      LifeStep l (.close f e) (l.close f t e)
  | delete (session : String) (hd : l.deletionTasks.get? session = none) :
      LifeStep l (.delete session) (l.delete session)
  | cancelAll (d : Nat) (t : Task) (ht : l.tasks (.deletion d) = some t) (hd : t.done = false)
      (ha : l.awaited d = none) : LifeStep l (.cancelAll d) (l.cancelAll d t.session)
  | release (d : Nat) (t : Task) (ids : List TaskId) (raising : List String)
      (ht : l.tasks (.deletion d) = some t) (hd : t.done = false) (ha : l.awaited d = some ids)
      (hids : ∀ id ∈ ids, l.live id = false) :
      LifeStep l (.release d raising) (l.release d t raising)
  | forget (d : Nat) (t : Task) (ht : l.tasks (.deletion d) = some t) (hd : t.done = true)
      (hm : l.deletionTasks.get? t.session = some d) :
      LifeStep l (.forget d) { l with deletionTasks := l.deletionTasks.erase t.session }

namespace Lifecycle

theorem running_some {id : TaskId} {t : Task} :
    l.running id = some t ↔ l.tasks id = some t ∧ t.done = false := by
  unfold running
  cases l.tasks id with
  | none => simp
  | some u =>
    cases hd : u.done with
    | true =>
      simp only [hd, if_true, reduceCtorEq, Option.some.injEq, false_iff, not_and]
      rintro rfl
      simp [hd]
    | false =>
      simp only [hd, Bool.false_eq_true, if_false, Option.some.injEq]
      exact ⟨fun e => ⟨e, e ▸ hd⟩, fun h => h.1⟩

theorem live_iff {id : TaskId} :
    l.live id = true ↔ ∃ t, l.tasks id = some t ∧ t.done = false := by
  unfold live
  cases l.tasks id <;> simp

theorem not_live {id : TaskId} {t : Task} (h : l.live id = false) (ht : l.tasks id = some t) :
    t.done = true := by
  unfold live at h
  rw [ht] at h
  simpa using h

end Lifecycle

/-- **Every event the machine takes is one of these.** -/
theorem step_life (h : l.step e = some l') : LifeStep l e l' := by
  unfold Lifecycle.step at h
  -- an event is taken where its guard holds: the step of its name states the guard
  cases e with
  | admission session agent =>
    simp only at h
    split at h
    · cases h
    · next hf =>
      cases h
      exact .admission session agent
        ((Dict.contains_eq_false_iff _ _).mp (by simpa only [Bool.not_eq_true] using hf))
  | acquire n =>
    simp only at h
    split at h
    · next t a ht ha =>
      split at h
      · next hg =>
        obtain ⟨ht, hd⟩ := Lifecycle.running_some.mp ht
        obtain ⟨hdue, hq, hfree⟩ := hg
        cases h
        exact .acquire n t a ht hd (by simpa using hdue) ha (by simpa [Lifecycle.queued] using hq)
          hfree
      · cases h
    · cases h
  | disconnect n =>
    obtain ⟨t, ht, rfl⟩ := Option.map_eq_some_iff.mp h
    obtain ⟨ht, hd⟩ := Lifecycle.running_some.mp ht
    exact .disconnect n t ht hd
  | leave n e =>
    simp only at h
    split at h
    · next t ht =>
      split at h
      · next hg =>
        obtain ⟨ht, hd⟩ := Lifecycle.running_some.mp ht
        cases h
        refine .leave n t e ht hd (hg.imp id fun hg => ?_)
        -- a request that is not queued any more has its pipeline, and that is over
        obtain ⟨hq, hl⟩ := hg
        obtain ⟨u, hu⟩ : ∃ u, l.tasks (.turn n) = some u :=
          Option.isSome_iff_exists.mp (by simpa [Lifecycle.queued] using hq)
        exact ⟨u, hu, Lifecycle.not_live (by simpa using hl) hu⟩
      · cases h
    · cases h
  | interrupt n =>
    simp only at h
    split at h
    · next t ht =>
      split at h
      · next hdue =>
        obtain ⟨ht, hd⟩ := Lifecycle.running_some.mp ht
        cases h
        exact .interrupt n t ht hd hdue
      · cases h
    · cases h
  | finish n e =>
    obtain ⟨t, ht, rfl⟩ := Option.map_eq_some_iff.mp h
    obtain ⟨ht, hd⟩ := Lifecycle.running_some.mp ht
    exact .finish n t e ht hd
  | unlock n =>
    simp only at h
    split at h
    · next t a ht ha =>
      split at h
      · next hg =>
        cases h
        exact .unlock n t a ht hg.1 ha hg.2
      · cases h
    · cases h
  | untrack n =>
    simp only at h
    split at h
    · next t ht =>
      split at h
      · next hg =>
        cases h
        exact .untrack n t ht hg.1 hg.2
      · cases h
    · cases h
  | finalize session =>
    simp only at h
    split at h
    · cases h
    · next hf =>
      cases h
      exact .finalize session
        ((Dict.contains_eq_false_iff _ _).mp (by simpa only [Bool.not_eq_true] using hf))
  | drain f =>
    simp only at h
    split at h
    · next t ht =>
      split at h
      · next hg =>
        obtain ⟨ht, hd⟩ := Lifecycle.running_some.mp ht
        cases h
        exact .drain f t ht hd (by simpa using hg.1) hg.2
      · cases h
    · cases h
  | close f e =>
    simp only at h
    split at h
    · next t ht =>
      split at h
      · next hg =>
        obtain ⟨ht, hd⟩ := Lifecycle.running_some.mp ht
        cases h
        exact .close f t e ht hd hg
      · cases h
    · cases h
  | delete session =>
    simp only at h
    split at h
    · cases h
    · next hf =>
      cases h
      exact .delete session
        ((Dict.contains_eq_false_iff _ _).mp (by simpa only [Bool.not_eq_true] using hf))
  | cancelAll d =>
    simp only at h
    split at h
    · next t ht ha =>
      obtain ⟨ht, hd⟩ := Lifecycle.running_some.mp ht
      cases h
      exact .cancelAll d t ht hd ha
    · cases h
  | release d raising =>
    simp only at h
    split at h
    · next t ids ht ha =>
      split at h
      · next hg =>
        obtain ⟨ht, hd⟩ := Lifecycle.running_some.mp ht
        cases h
        exact .release d t ids raising ht hd ha (by simpa using hg)
      · cases h
    · cases h
  | forget d =>
    simp only at h
    split at h
    · next t ht =>
      split at h
      · next hg =>
        cases h
        exact .forget d t ht hg.1 hg.2
      · cases h
    · cases h

end RolloutProxy
