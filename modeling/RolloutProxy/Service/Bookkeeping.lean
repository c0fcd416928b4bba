/-
  File:      RolloutProxy/Service/Bookkeeping.lean
  Subject:   WHAT AN EVENT LEAVES OF EACH TABLE of the server, and the invariants of the tables:
             who is numbered, tracked and registered.

  * `LifeStep.task`: a task is kept, starts, is cancelled, interrupted, or ends; the other lemmas
    of section 2 say the same of each table. The invariants are read off these and no event is
    looked at again.
  * `Numbered`: ids are fresh and sessions agree;
  * `Tracked`: a request or pipeline under way is tracked under its session;
  * `Registered`: a finalization or deletion under way is the registered one of its session.
-/
import RolloutProxy.Service.Lifecycle

namespace RolloutProxy

variable {l l' : Lifecycle} {e : LifeEvent}

/-! ## 1. What happens to a task -/

/-- Task `id` is created for `session`. -/
inductive Starts (l : Lifecycle) : LifeEvent → TaskId → String → Prop where
  | request (session agent : String) (hf : l.finalizationTasks.get? session = none) :
      Starts l (.admission session agent) (.request l.created) session
  | turn (n : Nat) (t : Task) (a : Admitted) (ht : l.tasks (.request n) = some t)
      (hd : t.done = false) (hdue : t.due = false) (ha : l.admitted n = some a)
      (hq : l.tasks (.turn n) = none) (hfree : l.holders a.lock = none) :
      Starts l (.acquire n) (.turn n) a.session
  | finalization (session : String) (hf : l.finalizationTasks.get? session = none) :
      Starts l (.finalize session) (.finalization l.created) session
  | deletion (session : String) (hd : l.deletionTasks.get? session = none) :
      Starts l (.delete session) (.deletion l.created) session

/-- Task `id` is asked to stop: by its caller, or by a deletion. -/
inductive Cancels (l : Lifecycle) : LifeEvent → TaskId → Prop where
  | caller (n : Nat) : Cancels l (.disconnect n) (.request n)
  | deletion (d : Nat) (t : Task) (id : TaskId) (ht : l.tasks (.deletion d) = some t)
      (hd : t.done = false) (ha : l.awaited d = none) (hid : id ∈ l.toCancel t.session) :
      Cancels l (.cancelAll d) id

/-- Task `id`, with the data `t`, ends. -/
inductive Ends (l : Lifecycle) (t : Task) : LifeEvent → TaskId → Prop where
  | request (n : Nat) (e : Ending)
      (h : t.due = true ∨ ∃ u, l.tasks (.turn n) = some u ∧ u.done = true) :
      Ends l t (.leave n e) (.request n)
  | turn (n : Nat) (e : Ending) : Ends l t (.finish n e) (.turn n)
  | finalization (f : Nat) (e : Ending) (h : t.due = true ∨ l.drained f = some true) :
      Ends l t (.close f e) (.finalization f)
  | deletion (d : Nat) (ids : List TaskId) (raising : List String) (ha : l.awaited d = some ids)
      (hids : ∀ id ∈ ids, l.live id = false) : Ends l t (.release d raising) (.deletion d)

inductive TaskChange (l l' : Lifecycle) (e : LifeEvent) (id : TaskId) : Prop where
  | kept (h : l'.tasks id = l.tasks id)
  | starts (session : String) (hs : Starts l e id session)
      (h : l'.tasks id = some (.fresh session))
  | cancelled (t : Task) (ht : l.tasks id = some t) (h : l'.tasks id = some t.cancel)
      (hc : Cancels l e id)
  | interrupted (n : Nat) (t : Task) (hid : id = .turn n) (he : e = .interrupt n)
      (ht : l.tasks id = some t) (hd : t.done = false) (hdue : t.due = true)
      (h : l'.tasks id = some t.interrupt)
  | ends (t : Task) (r : Ending) (ht : l.tasks id = some t) (hd : t.done = false)
      (he : Ends l t e id) (h : l'.tasks id = some (t.finish r))

namespace LifeStep

/-- An update of one task is read at another, or at its own. -/
theorem tasks_update (f : TaskId → Option Task) (id' : TaskId) (t : Task) (id : TaskId) :
    Function.update f id' (some t) id = f id ∨
      id = id' ∧ Function.update f id' (some t) id = some t := by
  by_cases h : id = id'
  · exact .inr ⟨h, by rw [h, Function.update_self]⟩
  · exact .inl (Function.update_of_ne h _ _)

/-- **What an event does to a task.** -/
theorem task (hs : LifeStep l e l') (id : TaskId) : TaskChange l l' e id := by
  -- each event sets one task, but a deletion: it cancels all that is at work for its session
  cases hs with
  | admission session agent hf =>
    rcases tasks_update l.tasks (.request l.created) (.fresh session) id
      with h | ⟨rfl, h⟩
    · exact .kept h
    · exact .starts session (.request session agent hf) h
  | acquire n t a ht hd hdue ha hq hfree =>
    rcases tasks_update l.tasks (.turn n) (.fresh a.session) id
      with h | ⟨rfl, h⟩
    · exact .kept h
    · exact .starts a.session (.turn n t a ht hd hdue ha hq hfree) h
  | disconnect n t ht hd =>
    rcases tasks_update l.tasks (.request n) (t.cancel) id with h | ⟨rfl, h⟩
    · exact .kept h
    · exact .cancelled t ht h (.caller n)
  | leave n t r ht hd hleave =>
    rcases tasks_update l.tasks (.request n) (t.finish r) id with h | ⟨rfl, h⟩
    · exact .kept h
    · exact .ends t r ht hd (.request n r hleave) h
  | interrupt n t ht hd hdue =>
    rcases tasks_update l.tasks (.turn n) (t.interrupt) id with h | ⟨rfl, h⟩
    · exact .kept h
    · exact .interrupted n t rfl rfl ht hd hdue h
  | finish n t r ht hd =>
    rcases tasks_update l.tasks (.turn n) (t.finish r) id with h | ⟨rfl, h⟩
    · exact .kept h
    · exact .ends t r ht hd (.turn n r) h
  | finalize session hf =>
    rcases tasks_update l.tasks (.finalization l.created) (.fresh session) id
      with h | ⟨rfl, h⟩
    · exact .kept h
    · exact .starts session (.finalization session hf) h
  | close f t r ht hd hc =>
    rcases tasks_update l.tasks (.finalization f) (t.finish r) id
      with h | ⟨rfl, h⟩
    · exact .kept h
    · exact .ends t r ht hd (.finalization f r hc) h
  | delete session hd =>
    rcases tasks_update l.tasks (.deletion l.created) (.fresh session) id
      with h | ⟨rfl, h⟩
    · exact .kept h
    · exact .starts session (.deletion session hd) h
  | cancelAll d t ht hd ha =>
    by_cases hid : id ∈ l.toCancel t.session
    · cases hu : l.tasks id with
      | none =>
        refine .kept ?_
        simp only [Lifecycle.cancelAll, if_pos hid, hu, Option.map_none]
      | some u =>
        refine .cancelled u hu ?_ (.deletion d t id ht hd ha hid)
        simp only [Lifecycle.cancelAll, if_pos hid, hu, Option.map_some]
    · exact .kept (if_neg hid)
  | release d t ids raising ht hd ha hids =>
    rcases tasks_update l.tasks (.deletion d) (t.finish _) id with h | ⟨rfl, h⟩
    · exact .kept h
    · exact .ends t _ ht hd (.deletion d ids raising ha hids) h
  | unlock | untrack | drain | forget => exact .kept rfl

end LifeStep

/-! ## 2. What happens to the tables -/

/-- A deletion of the session goes on behind the tasks it waited for. -/
structure Releases (l : Lifecycle) (e : LifeEvent) (session : String) : Prop where
  event : ∃ d raising t ids, e = .release d raising ∧ l.tasks (.deletion d) = some t ∧
    t.done = false ∧ t.session = session ∧ l.awaited d = some ids ∧ ∀ id ∈ ids, l.live id = false

/-- What is left of a dictionary of which keys were erased. -/
theorem foldl_erase {d : Dict String Nat} {ks : List String} {k : String} :
    (ks.foldl (fun d k => d.erase k) d).get? k = if k ∈ ks then none else d.get? k := by
  induction ks generalizing d with
  | nil => rfl
  | cons x ks ih =>
    rw [List.foldl_cons, ih, Dict.get?_erase]
    by_cases hx : k = x <;> by_cases hk : k ∈ ks <;> simp [hx, hk]

namespace LifeStep

theorem created_le (hs : LifeStep l e l') : l.created ≤ l'.created := by
  cases hs with
  | admission | finalize | delete => exact Nat.le_succ _
  | _ => exact Nat.le_refl _

theorem admitted_or (hs : LifeStep l e l') {n : Nat} {a : Admitted} (h : l'.admitted n = some a) :
    l.admitted n = some a ∨ ∃ session agent, e = .admission session agent ∧ n = l.created ∧
      a = ⟨session, agent, (l.turnLocks.get? (streamId session agent)).getD l.created⟩ := by
  cases hs with
  | admission session agent hf =>
    have h : Function.update l.admitted l.created _ n = some a := h
    rcases eq_or_ne n l.created with rfl | hne
    · rw [Function.update_self] at h
      exact .inr ⟨session, agent, rfl, rfl, (Option.some.inj h).symm⟩
    · rw [Function.update_of_ne hne] at h
      exact .inl h
  | _ => exact .inl h

theorem admitted_kept (hs : LifeStep l e l') {n : Nat} {a : Admitted} (h : l.admitted n = some a)
    (hn : n < l.created) : l'.admitted n = some a := by
  cases hs with
  | admission session agent hf => exact (Function.update_of_ne (Nat.ne_of_lt hn) _ _).trans h
  | _ => exact h

theorem holders_or (hs : LifeStep l e l') {k n : Nat} (h : l'.holders k = some n) :
    l.holders k = some n ∨ e = .acquire n ∧ ∃ a, l.admitted n = some a ∧ a.lock = k := by
  cases hs with
  | acquire m t a ht hd hdue ha hq hfree =>
    have h : Function.update l.holders a.lock (some m) k = some n := h
    rcases eq_or_ne k a.lock with rfl | hne
    · rw [Function.update_self] at h
      cases h
      exact .inr ⟨rfl, a, ha, rfl⟩
    · rw [Function.update_of_ne hne] at h
      exact .inl h
  | unlock m t a ht hd ha hh =>
    have h : Function.update l.holders a.lock none k = some n := h
    rcases eq_or_ne k a.lock with rfl | hne
    · rw [Function.update_self] at h
      cases h
    · rw [Function.update_of_ne hne] at h
      exact .inl h
  | _ => exact .inl h

/-- A held lock object is released behind its pipeline only. -/
theorem holders_kept (hs : LifeStep l e l') {k n : Nat} (h : l.holders k = some n) :
    l'.holders k = some n ∨ ∃ t, l.tasks (.turn n) = some t ∧ t.done = true := by
  cases hs with
  | acquire m t a ht hd hdue ha hq hfree =>
    refine .inl ((Function.update_of_ne ?_ _ _).trans h)
    rintro rfl
    rw [hfree] at h
    cases h
  | unlock m t a ht hd ha hh =>
    rcases eq_or_ne k a.lock with rfl | hne
    · rw [hh] at h
      cases h
      exact .inr ⟨t, ht, hd⟩
    · exact .inl ((Function.update_of_ne hne _ _).trans h)
  | _ => exact .inl h

theorem turnLocks_or (hs : LifeStep l e l') {s : String} {k : Nat}
    (h : l'.turnLocks.get? s = some k) :
    l.turnLocks.get? s = some k ∨
      ∃ session agent, e = .admission session agent ∧ s = streamId session agent ∧ k = l.created := by
  cases hs with
  | admission session agent hf =>
    have h : (l.turnLocks.set (streamId session agent) _).get? s = some k := h
    rw [Dict.get?_set] at h
    split at h
    · next he =>
      cases hg : l.turnLocks.get? (streamId session agent) with
      | none =>
        rw [hg] at h
        exact .inr ⟨session, agent, rfl, he, (Option.some.inj h).symm⟩
      | some k' =>
        rw [hg] at h
        rw [he, hg]
        exact .inl h
    · exact .inl h
  | release d t ids raising ht hd ha hids =>
    have h : (List.foldl _ l.turnLocks _).get? s = some k := h
    rw [foldl_erase] at h
    split at h
    · cases h
    · exact .inl h
  | _ => exact .inl h

theorem turnLocks_kept (hs : LifeStep l e l') {s : String} {k : Nat}
    (h : l.turnLocks.get? s = some k) :
    l'.turnLocks.get? s = some k ∨ ∃ session, Releases l e session ∧ s ∈ l.toRelease session := by
  cases hs with
  | admission session agent hf =>
    refine .inl ?_
    have hset : (l.turnLocks.set (streamId session agent)
        ((l.turnLocks.get? (streamId session agent)).getD l.created)).get? s = some k := by
      rw [Dict.get?_set]
      split
      · next he =>
        rw [← he, h]
        rfl
      · exact h
    exact hset
  | release d t ids raising ht hd ha hids =>
    by_cases hm : s ∈ (l.toRelease t.session).filter (· ∉ raising)
    · exact .inr ⟨t.session, ⟨d, raising, t, ids, rfl, ht, hd, rfl, ha, hids⟩,
        (List.mem_filter.mp hm).1⟩
    · refine .inl (Eq.trans foldl_erase ?_)
      rw [if_neg hm]
      exact h
  | _ => exact .inl h

theorem streams_or (hs : LifeStep l e l') {s x : String} (h : x ∈ l'.sessionStreams.members s) :
    x ∈ l.sessionStreams.members s ∨ ∃ agent, e = .admission s agent ∧ x = streamId s agent := by
  cases hs with
  | admission session agent hf =>
    have h : x ∈ (l.sessionStreams.addTo session (streamId session agent)).members s := h
    rcases Dict.mem_addTo.mp h with ⟨rfl, rfl⟩ | h
    · exact .inr ⟨agent, rfl, rfl⟩
    · exact .inl h
  | release d t ids raising ht hd ha hids =>
    simp only [Lifecycle.release] at h
    split at h
    · exact .inl h
    · rw [Dict.members_erase] at h
      split at h
      · cases h
      · exact .inl h
  | _ => exact .inl h

theorem streams_kept (hs : LifeStep l e l') {s x : String} (h : x ∈ l.sessionStreams.members s) :
    x ∈ l'.sessionStreams.members s ∨ Releases l e s := by
  cases hs with
  | admission session agent hf => exact .inl (Dict.mem_addTo.mpr (.inr h))
  | release d t ids raising ht hd ha hids =>
    by_cases hs : s = t.session
    · exact .inr ⟨d, raising, t, ids, rfl, ht, hd, hs.symm, ha, hids⟩
    · refine .inl ?_
      simp only [Lifecycle.release]
      split
      · exact h
      · rw [Dict.members_erase, if_neg hs]
        exact h
  | _ => exact .inl h

/-- An admission tracks its stream. -/
theorem admission_streams {session agent : String} (hs : LifeStep l (.admission session agent) l') :
    streamId session agent ∈ l'.sessionStreams.members session := by
  cases hs with
  | admission _ _ hf => exact Dict.mem_addTo.mpr (.inl ⟨rfl, rfl⟩)

theorem tracked_or (hs : LifeStep l e l') {s : String} {id : TaskId}
    (h : id ∈ l'.sessionTasks.members s) : id ∈ l.sessionTasks.members s ∨ Starts l e id s := by
  cases hs with
  | admission session agent hf =>
    rcases Dict.mem_addTo.mp h with ⟨rfl, rfl⟩ | h
    · exact .inr (.request s agent hf)
    · exact .inl h
  | acquire n t a ht hd hdue ha hq hfree =>
    rcases Dict.mem_addTo.mp h with ⟨rfl, rfl⟩ | h
    · exact .inr (.turn n t a ht hd hdue ha hq hfree)
    · exact .inl h
  | leave | untrack => exact .inl (Dict.mem_discard.mp h).1
  | _ => exact .inl h

/-- A task that is tracked no longer has ended, and the finalization of its session is woken. -/
theorem tracked_kept (hs : LifeStep l e l') {s : String} {id : TaskId}
    (h : id ∈ l.sessionTasks.members s) :
    id ∈ l'.sessionTasks.members s ∨
      (∃ t, l'.tasks id = some t ∧ t.done = true) ∧
        ∀ f, l.workChanged.get? s = some f → l'.eventSet f = true := by
  have woken : ∀ f, l.workChanged.get? s = some f → l.notified s f = true := by
    intro f hf
    unfold Lifecycle.notified
    rw [hf]
    exact Function.update_self _ _ _
  cases hs with
  | admission session agent hf => exact .inl (Dict.mem_addTo.mpr (.inr h))
  | acquire n t a ht hd hdue ha hq hfree => exact .inl (Dict.mem_addTo.mpr (.inr h))
  | leave n t r ht hd hleave =>
    by_cases he : s = t.session ∧ id = .request n
    · obtain ⟨rfl, rfl⟩ := he
      exact .inr ⟨⟨t.finish r, Function.update_self _ _ _, rfl⟩, woken⟩
    · exact .inl (Dict.mem_discard.mpr ⟨h, he⟩)
  | untrack n t ht hd hm =>
    by_cases he : s = t.session ∧ id = .turn n
    · obtain ⟨rfl, rfl⟩ := he
      exact .inr ⟨⟨t, ht, hd⟩, woken⟩
    · exact .inl (Dict.mem_discard.mpr ⟨h, he⟩)
  | _ => exact .inl h

/-- A request and its pipeline are tracked from their start. -/
theorem starts_tracked (hs : LifeStep l e l') {s : String} {id : TaskId} (h : Starts l e id s)
    (hid : (∃ n, id = .request n) ∨ ∃ n, id = .turn n) : id ∈ l'.sessionTasks.members s := by
  cases h with
  | request agent hf =>
    cases hs with
    | admission _ _ hf => exact Dict.mem_addTo.mpr (.inl ⟨rfl, rfl⟩)
  | turn n t a ht hd hdue ha hq hfree =>
    cases hs with
    | acquire _ t' a' ht' hd' hdue' ha' hq' hfree' =>
      rw [ha] at ha'
      cases ha'
      exact Dict.mem_addTo.mpr (.inl ⟨rfl, rfl⟩)
  | finalization | deletion => rcases hid with ⟨n, h⟩ | ⟨n, h⟩ <;> cases h

theorem finalizationTasks_or (hs : LifeStep l e l') {s : String} {f : Nat}
    (h : l'.finalizationTasks.get? s = some f) :
    l.finalizationTasks.get? s = some f ∨
      e = .finalize s ∧ f = l.created ∧ l.finalizationTasks.get? s = none := by
  cases hs with
  | finalize session hf =>
    have hset : (l.finalizationTasks.set session l.created).get? s = some f := h
    rw [Dict.get?_set] at hset
    split at hset
    · next he =>
      subst he
      exact .inr ⟨rfl, (Option.some.inj hset).symm, hf⟩
    · exact .inl hset
  | release d t ids raising ht hd ha hids =>
    simp only [Lifecycle.release] at h
    split at h
    · exact .inl h
    · rw [Dict.get?_erase] at h
      split at h
      · cases h
      · exact .inl h
  | _ => exact .inl h

theorem finalizationTasks_kept (hs : LifeStep l e l') {s : String} {f : Nat}
    (h : l.finalizationTasks.get? s = some f) :
    l'.finalizationTasks.get? s = some f ∨ Releases l e s := by
  cases hs with
  | finalize session hf =>
    refine .inl ((Dict.get?_set_ne _ _ ?_).trans h)
    rintro rfl
    rw [hf] at h
    cases h
  | release d t ids raising ht hd ha hids =>
    by_cases hs : s = t.session
    · exact .inr ⟨d, raising, t, ids, rfl, ht, hd, hs.symm, ha, hids⟩
    · refine .inl ?_
      simp only [Lifecycle.release]
      split
      · exact h
      · rw [Dict.get?_erase, if_neg hs]
        exact h
  | _ => exact .inl h

theorem deletionTasks_or (hs : LifeStep l e l') {s : String} {d : Nat}
    (h : l'.deletionTasks.get? s = some d) :
    l.deletionTasks.get? s = some d ∨ e = .delete s ∧ d = l.created := by
  cases hs with
  | delete session hd =>
    have hset : (l.deletionTasks.set session l.created).get? s = some d := h
    rw [Dict.get?_set] at hset
    split at hset
    · next he =>
      subst he
      exact .inr ⟨rfl, (Option.some.inj hset).symm⟩
    · exact .inl hset
  | forget d t ht hd hm =>
    have h : (l.deletionTasks.erase t.session).get? s = some _ := h
    rw [Dict.get?_erase] at h
    split at h
    · cases h
    · exact .inl h
  | _ => exact .inl h

theorem deletionTasks_kept (hs : LifeStep l e l') {s : String} {d : Nat}
    (h : l.deletionTasks.get? s = some d) :
    l'.deletionTasks.get? s = some d ∨ ∃ t, l.tasks (.deletion d) = some t ∧ t.done = true := by
  cases hs with
  | delete session hd =>
    refine .inl ((Dict.get?_set_ne _ _ ?_).trans h)
    rintro rfl
    rw [hd] at h
    cases h
  | forget d' t ht hd hm =>
    by_cases hs : s = t.session
    · rw [hs, hm] at h
      cases h
      exact .inr ⟨t, ht, hd⟩
    · exact .inl ((Dict.get?_erase_ne _ hs).trans h)
  | _ => exact .inl h

theorem awaited_or (hs : LifeStep l e l') {d : Nat} {ids : List TaskId}
    (h : l'.awaited d = some ids) :
    l.awaited d = some ids ∨ ∃ t, e = .cancelAll d ∧ l.tasks (.deletion d) = some t ∧
      t.done = false ∧ l.awaited d = none ∧ ids = l.toCancel t.session := by
  cases hs with
  | cancelAll d' t ht hd ha =>
    have h : Function.update l.awaited d' (some (l.toCancel t.session)) d = some ids := h
    rcases eq_or_ne d d' with rfl | hne
    · rw [Function.update_self] at h
      exact .inr ⟨t, rfl, ht, hd, ha, (Option.some.inj h).symm⟩
    · rw [Function.update_of_ne hne] at h
      exact .inl h
  | _ => exact .inl h

theorem awaited_kept (hs : LifeStep l e l') {d : Nat} {ids : List TaskId}
    (h : l.awaited d = some ids) : l'.awaited d = some ids := by
  cases hs with
  | cancelAll d' t ht hd ha =>
    refine (Function.update_of_ne ?_ _ _).trans h
    rintro rfl
    rw [ha] at h
    cases h
  | _ => exact h

theorem drained_or (hs : LifeStep l e l') {f : Nat} {b : Bool} (h : l'.drained f = some b) :
    l.drained f = some b ∨ ∃ t, e = .drain f ∧ l.tasks (.finalization f) = some t ∧
      t.done = false ∧ b = l.idle t.session := by
  cases hs with
  | drain f' t ht hd hdue hw =>
    have h : Function.update l.drained f' (some (l.idle t.session)) f = some b := h
    rcases eq_or_ne f f' with rfl | hne
    · rw [Function.update_self] at h
      exact .inr ⟨t, rfl, ht, hd, (Option.some.inj h).symm⟩
    · rw [Function.update_of_ne hne] at h
      exact .inl h
  | _ => exact .inl h

/-- A drain that has ended is over. -/
theorem drained_kept (hs : LifeStep l e l') {f : Nat} (h : l.drained f = some true) :
    l'.drained f = some true := by
  cases hs with
  | drain f' t ht hd hdue hw =>
    refine (Function.update_of_ne ?_ _ _).trans h
    rintro rfl
    rw [h] at hw
    simp at hw
  | _ => exact h

end LifeStep

/-! ## 3. Ids and sessions -/

def TaskId.number : TaskId → Nat
  | .request n | .turn n | .finalization n | .deletion n => n

theorem Task.cancel_of_done {t : Task} (h : t.done = true) : t.cancel = t := if_pos h

namespace LifeStep

/-- A task that exists goes on existing, for its session; one that has ended stays as it is. -/
theorem task_after (hs : LifeStep l e l') {id : TaskId} {t : Task} (ht : l.tasks id = some t)
    (hn : id.number < l.created) :
    ∃ t', l'.tasks id = some t' ∧ t'.session = t.session ∧ (t.done = true → t' = t) := by
  cases hs.task id with
  | kept h => exact ⟨t, h.trans ht, rfl, fun _ => rfl⟩
  | starts session hstart h =>
    cases hstart with
    | turn n u a hu hd hdue ha hq hfree =>
      rw [hq] at ht
      cases ht
    | request | finalization | deletion => exact absurd hn (Nat.lt_irrefl _)
  | cancelled u hu h hc =>
    rw [ht] at hu
    cases hu
    exact ⟨_, h, Task.cancel_session t, Task.cancel_of_done⟩
  | interrupted n u hid he hu hd hdue h =>
    rw [ht] at hu
    cases hu
    exact ⟨_, h, rfl, fun hdone => by rw [hd] at hdone; cases hdone⟩
  | ends u r hu hd hend h =>
    rw [ht] at hu
    cases hu
    exact ⟨_, h, rfl, fun hdone => by rw [hd] at hdone; cases hdone⟩

/-- A task under way that does not end is under way. -/
theorem running_after (hs : LifeStep l e l') {id : TaskId} {t : Task} (ht : l.tasks id = some t)
    (hd : t.done = false) (hn : id.number < l.created) (hend : ¬ Ends l t e id) :
    ∃ t', l'.tasks id = some t' ∧ t'.done = false ∧ t'.session = t.session := by
  obtain ⟨t', ht', hsess, -⟩ := hs.task_after ht hn
  refine ⟨t', ht', ?_, hsess⟩
  cases hs.task id with
  | kept h =>
    rw [h, ht] at ht'
    cases ht'
    exact hd
  | starts session hstart h =>
    rw [h] at ht'
    cases ht'
    rfl
  | cancelled u hu h hc =>
    rw [ht] at hu
    cases hu
    rw [h] at ht'
    cases ht'
    exact (Task.cancel_done t).trans hd
  | interrupted n u hid he hu hud hdue h =>
    rw [h] at ht'
    cases ht'
    exact hud
  | ends u r hu hud he h =>
    rw [ht] at hu
    cases hu
    exact absurd he hend

/-- A task is new, or was there for the same session, and has not come back to life. -/
theorem task_before (hs : LifeStep l e l') {id : TaskId} {t' : Task}
    (ht : l'.tasks id = some t') :
    Starts l e id t'.session ∧ t' = .fresh t'.session ∨
      ∃ t, l.tasks id = some t ∧ t.session = t'.session ∧ (t'.done = false → t.done = false) := by
  cases hs.task id with
  | kept h => exact .inr ⟨t', h.symm.trans ht, rfl, fun hd => hd⟩
  | starts session hstart h =>
    rw [ht] at h
    cases h
    exact .inl ⟨hstart, rfl⟩
  | cancelled u hu h hc =>
    rw [ht] at h
    cases h
    exact .inr ⟨u, hu, (Task.cancel_session u).symm, fun hd => (Task.cancel_done u).symm.trans hd⟩
  | interrupted n u hid he hu hd hdue h =>
    rw [ht] at h
    cases h
    exact .inr ⟨u, hu, rfl, fun _ => hd⟩
  | ends u r hu hd hend h =>
    rw [ht] at h
    cases h
    exact .inr ⟨u, hu, rfl, fun _ => hd⟩

end LifeStep

/-- Ids are fresh, and whatever belongs to a task agrees on its session. -/
structure Numbered (l : Lifecycle) : Prop where
  tasks : ∀ id t, l.tasks id = some t → id.number < l.created
  admitted : ∀ n a, l.admitted n = some a → n < l.created ∧ a.lock < l.created
  request : ∀ n t, l.tasks (.request n) = some t →
    ∃ a, l.admitted n = some a ∧ a.session = t.session
  turn : ∀ n t, l.tasks (.turn n) = some t → ∃ a, l.admitted n = some a ∧ a.session = t.session
  turnLocks : ∀ s k, l.turnLocks.get? s = some k → k < l.created
  holders : ∀ k n, l.holders k = some n →
    ∃ a t, l.admitted n = some a ∧ a.lock = k ∧ l.tasks (.turn n) = some t
  drained : ∀ f b, l.drained f = some b → ∃ t, l.tasks (.finalization f) = some t
  awaited : ∀ d ids, l.awaited d = some ids → ∃ t, l.tasks (.deletion d) = some t
  finalization : ∀ s f, l.finalizationTasks.get? s = some f →
    ∃ t, l.tasks (.finalization f) = some t ∧ t.session = s
  deletion : ∀ s d, l.deletionTasks.get? s = some d →
    ∃ t, l.tasks (.deletion d) = some t ∧ t.session = s

theorem Starts.number_lt (hs : LifeStep l e l') (hn : Numbered l) {id : TaskId} {s : String}
    (h : Starts l e id s) : id.number < l'.created := by
  cases h with
  | turn n t a ht hd hdue ha hq hfree => exact Nat.lt_of_lt_of_le (hn.admitted n a ha).1 hs.created_le
  | request | finalization | deletion =>
    cases hs
    exact Nat.lt_succ_self _

/-- A task that starts is a new one. -/
theorem Starts.absent (hn : Numbered l) {id : TaskId} {s : String} (h : Starts l e id s) :
    l.tasks id = none := by
  have fresh : ∀ id, id.number = l.created → l.tasks id = none := by
    intro id hid
    cases ht : l.tasks id with
    | none => rfl
    | some t => exact absurd (hid ▸ hn.tasks id t ht) (Nat.lt_irrefl _)
  cases h with
  | turn n t a ht hd hdue ha hq hfree => exact hq
  | request | finalization | deletion => exact fresh _ rfl

namespace Numbered

theorem empty : Numbered .empty := by
  constructor <;> intros <;> contradiction

theorem exists_after (hn : Numbered l) (hs : LifeStep l e l') {id : TaskId} {t : Task}
    (ht : l.tasks id = some t) : ∃ t', l'.tasks id = some t' ∧ t'.session = t.session := by
  obtain ⟨t', ht', hsess, -⟩ := hs.task_after ht (hn.tasks id t ht)
  exact ⟨t', ht', hsess⟩

theorem admitted_after (hn : Numbered l) (hs : LifeStep l e l') {n : Nat} {a : Admitted}
    (ha : l.admitted n = some a) : l'.admitted n = some a :=
  hs.admitted_kept ha (hn.admitted n a ha).1

theorem step (hn : Numbered l) (hs : LifeStep l e l') : Numbered l' := by
  have admitted_of : ∀ {n t}, Starts l e (.turn n) t → ∃ a, l.admitted n = some a ∧ a.session = t := by
    intro n s h
    cases h with
    | turn n t a ht hd hdue ha hq hfree => exact ⟨a, ha, rfl⟩
  constructor
  · intro id t ht
    rcases hs.task_before ht with ⟨h, -⟩ | ⟨u, hu, -, -⟩
    · exact h.number_lt hs hn
    · exact Nat.lt_of_lt_of_le (hn.tasks id u hu) hs.created_le
  · intro n a ha
    rcases hs.admitted_or ha with ha | ⟨session, agent, rfl, rfl, rfl⟩
    · obtain ⟨h, h'⟩ := hn.admitted n a ha
      exact ⟨Nat.lt_of_lt_of_le h hs.created_le, Nat.lt_of_lt_of_le h' hs.created_le⟩
    · cases hs with
      | admission _ _ hf =>
        refine ⟨Nat.lt_succ_self _, ?_⟩
        cases hg : l.turnLocks.get? (streamId session agent) with
        | none => exact Nat.lt_succ_self _
        | some k => exact Nat.lt_succ_of_lt (hn.turnLocks _ k hg)
  · intro n t ht
    rcases hs.task_before ht with ⟨h, -⟩ | ⟨u, hu, he, -⟩
    · cases h with
      | request agent hf =>
        cases hs with
        | admission _ _ hf => exact ⟨_, Function.update_self _ _ _, rfl⟩
    · obtain ⟨a, ha, hsess⟩ := hn.request n u hu
      exact ⟨a, hn.admitted_after hs ha, hsess.trans he⟩
  · intro n t ht
    rcases hs.task_before ht with ⟨h, -⟩ | ⟨u, hu, he, -⟩
    · obtain ⟨a, ha, hsess⟩ := admitted_of h
      exact ⟨a, hn.admitted_after hs ha, hsess⟩
    · obtain ⟨a, ha, hsess⟩ := hn.turn n u hu
      exact ⟨a, hn.admitted_after hs ha, hsess.trans he⟩
  · intro s k hk
    rcases hs.turnLocks_or hk with h | ⟨session, agent, rfl, rfl, rfl⟩
    · exact Nat.lt_of_lt_of_le (hn.turnLocks s k h) hs.created_le
    · cases hs
      exact Nat.lt_succ_self _
  · intro k n hk
    rcases hs.holders_or hk with h | ⟨rfl, a, ha, rfl⟩
    · obtain ⟨a, t, ha, hlock, ht⟩ := hn.holders k n h
      obtain ⟨t', ht', -⟩ := hn.exists_after hs ht
      exact ⟨a, t', hn.admitted_after hs ha, hlock, ht'⟩
    · cases hs with
      | acquire _ t a' ht hd hdue ha' hq hfree =>
        exact ⟨a, _, ha, rfl, Function.update_self _ _ _⟩
  · intro f b hb
    rcases hs.drained_or hb with h | ⟨t, rfl, ht, -, -⟩
    · obtain ⟨t, ht⟩ := hn.drained f b h
      obtain ⟨t', ht', -⟩ := hn.exists_after hs ht
      exact ⟨t', ht'⟩
    · obtain ⟨t', ht', -⟩ := hn.exists_after hs ht
      exact ⟨t', ht'⟩
  · intro d ids hd
    rcases hs.awaited_or hd with h | ⟨t, rfl, ht, -, -, -⟩
    · obtain ⟨t, ht⟩ := hn.awaited d ids h
      obtain ⟨t', ht', -⟩ := hn.exists_after hs ht
      exact ⟨t', ht'⟩
    · obtain ⟨t', ht', -⟩ := hn.exists_after hs ht
      exact ⟨t', ht'⟩
  · intro s f hf
    rcases hs.finalizationTasks_or hf with h | ⟨rfl, rfl, -⟩
    · obtain ⟨t, ht, he⟩ := hn.finalization s f h
      obtain ⟨t', ht', he'⟩ := hn.exists_after hs ht
      exact ⟨t', ht', he'.trans he⟩
    · cases hs
      exact ⟨_, Function.update_self _ _ _, rfl⟩
  · intro s d hd
    rcases hs.deletionTasks_or hd with h | ⟨rfl, rfl⟩
    · obtain ⟨t, ht, he⟩ := hn.deletion s d h
      obtain ⟨t', ht', he'⟩ := hn.exists_after hs ht
      exact ⟨t', ht', he'.trans he⟩
    · cases hs
      exact ⟨_, Function.update_self _ _ _, rfl⟩

end Numbered

/-! ## 4. Who is tracked -/

/-- A request or its pipeline: what `_session_tasks` holds. -/
def TaskId.isWork : TaskId → Bool
  | .request _ | .turn _ => true
  | _ => false

theorem Starts.isWork_cases {id : TaskId} {s : String} (h : Starts l e id s)
    (hid : id.isWork = true) :
    (∃ agent, e = .admission s agent ∧ id = .request l.created ∧ l.finalizationTasks.get? s = none) ∨
      ∃ n t a, e = .acquire n ∧ id = .turn n ∧ l.tasks (.request n) = some t ∧ t.done = false ∧
        t.due = false ∧ l.admitted n = some a ∧ a.session = s := by
  cases h with
  | request _ agent hf => exact .inl ⟨agent, rfl, rfl, hf⟩
  | turn n t a ht hd hdue ha hq hfree => exact .inr ⟨n, t, a, rfl, rfl, ht, hd, hdue, ha, rfl⟩
  | finalization | deletion => cases hid

/-- What is under way is tracked under its session, and under no other. -/
structure Tracked (l : Lifecycle) : Prop where
  running : ∀ id t, id.isWork = true → l.tasks id = some t → t.done = false →
    id ∈ l.sessionTasks.members t.session
  session : ∀ id s, id ∈ l.sessionTasks.members s → ∃ t, l.tasks id = some t ∧ t.session = s

namespace Tracked

theorem empty : Tracked .empty := by
  constructor <;> intros <;> contradiction

theorem step (hn : Numbered l) (h : Tracked l) (hs : LifeStep l e l') : Tracked l' where
  running id t' hid ht' hd' := by
    rcases hs.task_before ht' with ⟨hstart, -⟩ | ⟨t, ht, he, hd⟩
    · refine hs.starts_tracked hstart ?_
      cases id with
      | request n => exact .inl ⟨n, rfl⟩
      | turn n => exact .inr ⟨n, rfl⟩
      | finalization | deletion => cases hid
    · rcases hs.tracked_kept (h.running id t hid ht (hd hd')) with hm | ⟨⟨u, hu, hdone⟩, -⟩
      · exact he ▸ hm
      · rw [ht'] at hu
        cases hu
        rw [hd'] at hdone
        cases hdone
  session id s hm := by
    rcases hs.tracked_or hm with hm | hstart
    · obtain ⟨t, ht, he⟩ := h.session id s hm
      obtain ⟨t', ht', he'⟩ := hn.exists_after hs ht
      exact ⟨t', ht', he'.trans he⟩
    · cases hstart with
      | turn n t a ht hd hdue ha hq hfree =>
        cases hs with
        | acquire _ t' a' ht' hd' hdue' ha' hq' hfree' =>
          rw [ha] at ha'
          cases ha'
          exact ⟨_, Function.update_self _ _ _, rfl⟩
      | request | finalization | deletion =>
        cases hs
        exact ⟨_, Function.update_self _ _ _, rfl⟩

end Tracked

end RolloutProxy
