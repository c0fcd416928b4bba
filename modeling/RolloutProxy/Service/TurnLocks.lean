/-
  File:      RolloutProxy/Service/TurnLocks.lean
  Subject:   ONE TURN AT A TIME: what a deletion waits for, and the turn locks.

  * `ValidIds` is what the rest of the server sees to, `Orderly` what it sees to as long as
    tombstones outlast their deletions: nothing is admitted while its session is being deleted.
  * `Registered`: a deletion waits for all of its session that was there before it, and no request
    among it gets further;
  * `Bound`: the streams and locks of a session are tracked under it;
  * `Settled`: a deletion of the session waits for all of it, and what is under way is bound;
  * `Locked`: a pipeline under way holds the current lock of its stream. It needs that a deletion
    names a session: an id with a dash in it could be a stream of another session.
-/
import RolloutProxy.Service.Bookkeeping

namespace RolloutProxy

variable {l l' : Lifecycle} {e : LifeEvent}

/-- A deletion of the session is under way. -/
def Lifecycle.Deleting (l : Lifecycle) (session : String) : Prop :=
  ∃ d t, l.tasks (.deletion d) = some t ∧ t.done = false ∧ t.session = session

/-- An admitted session has a well-formed id. -/
def ValidIds (e : LifeEvent) : Prop :=
  match e with
  | .admission session _ => isSessionId session = true
  | _ => True

/-- No request or finalization of session `s` while it is being deleted. -/
def Orderly (l : Lifecycle) (s : String) (e : LifeEvent) : Prop :=
  match e with
  | .admission session _ | .finalize session => session = s → ¬ l.Deleting session
  | _ => True

/-! ## 1. What a deletion waits for -/

structure Registered (l : Lifecycle) : Prop where
  deletion : ∀ d t, l.tasks (.deletion d) = some t → t.done = false →
    l.deletionTasks.get? t.session = some d
  /-- a deletion waits for every older task of its session -/
  work : ∀ d t ids, l.tasks (.deletion d) = some t → t.done = false → l.awaited d = some ids →
    ∀ id u, id.isWork = true → l.tasks id = some u → u.done = false → u.session = t.session →
      id.number < d → id ∈ ids
  /-- and for its finalization, where that is older -/
  drain : ∀ d t ids, l.tasks (.deletion d) = some t → t.done = false → l.awaited d = some ids →
    ∀ f, l.finalizationTasks.get? t.session = some f → f < d → .finalization f ∈ ids
  /-- and no request among them gets further -/
  cancelled : ∀ d t ids, l.tasks (.deletion d) = some t → t.done = false → l.awaited d = some ids →
    ∀ n u, l.tasks (.request n) = some u → u.done = false → u.session = t.session → n < d →
      u.due = true

namespace Registered

theorem empty : Registered .empty := by
  constructor <;> intros <;> contradiction

/-- A cancelled request is cancelled still, or has ended. -/
theorem due_kept (hn : Numbered l) (hs : LifeStep l e l') {n : Nat} {t t' : Task}
    (ht : l.tasks (.request n) = some t) (hdue : t.due = true)
    (ht' : l'.tasks (.request n) = some t') (hd' : t'.done = false) : t'.due = true := by
  cases hs.task (.request n) with
  | kept h =>
    rw [h, ht] at ht'
    cases ht'
    exact hdue
  | starts session hstart h =>
    rw [hstart.absent hn] at ht
    cases ht
  | cancelled u hu h hc =>
    rw [ht'] at h
    cases h
    rw [ht] at hu
    cases hu
    unfold Task.cancel
    split
    · exact hdue
    · rfl
  | interrupted m u hid he hu hd hdue h => cases hid
  | ends u r hu hd hend h =>
    rw [ht'] at h
    cases h
    cases hd'

/-- A cancellation leaves a task that has ended, or one that is due to stop. -/
theorem cancel_due {t : Task} (h : t.cancel.done = false) : t.cancel.due = true := by
  rw [Task.cancel_done] at h
  unfold Task.cancel
  rw [if_neg (by simp [h])]

theorem mem_toCancel_of_member {s : String} {id : TaskId} (h : id ∈ l.sessionTasks.members s) :
    id ∈ l.toCancel s := List.mem_append_left _ h

theorem mem_toCancel_of_finalization {s : String} {f : Nat}
    (h : l.finalizationTasks.get? s = some f) : .finalization f ∈ l.toCancel s := by
  refine List.mem_append_right _ ?_
  rw [h]
  exact List.mem_singleton.mpr rfl

/-- A deletion under way was under way, unless it has just begun and waits for nothing yet. -/
theorem deletion_before (hn : Numbered l) (hs : LifeStep l e l') {d : Nat} {t' : Task}
    {ids : List TaskId} (ht' : l'.tasks (.deletion d) = some t') (hd' : t'.done = false)
    (ha' : l'.awaited d = some ids) :
    ∃ t, l.tasks (.deletion d) = some t ∧ t.done = false ∧ t.session = t'.session ∧
      (l.awaited d = some ids ∨ e = .cancelAll d ∧ ids = l.toCancel t.session) := by
  have hold : ∃ t, l.tasks (.deletion d) = some t := by
    rcases hs.awaited_or ha' with ha | ⟨t, -, ht, -⟩
    · exact hn.awaited d ids ha
    · exact ⟨t, ht⟩
  rcases hs.task_before ht' with ⟨hstart, -⟩ | ⟨t, ht, he, hd⟩
  · obtain ⟨t, ht⟩ := hold
    rw [hstart.absent hn] at ht
    cases ht
  · refine ⟨t, ht, hd hd', he, ?_⟩
    rcases hs.awaited_or ha' with ha | ⟨u, hev, hu, -, -, hids⟩
    · exact .inl ha
    · rw [ht] at hu
      cases hu
      exact .inr ⟨hev, hids⟩

theorem step (hn : Numbered l) (htr : Tracked l) (h : Registered l) (hs : LifeStep l e l') :
    Registered l' where
  deletion d t' ht' hd' := by
    rcases hs.task_before ht' with ⟨hstart, -⟩ | ⟨t, ht, he, hd⟩
    · generalize t'.session = s at hstart ⊢
      cases hstart with
      | deletion _ hf =>
        cases hs
        exact Dict.get?_set_self _ _ _
    · rcases hs.deletionTasks_kept (h.deletion d t ht (hd hd')) with hm | ⟨u, hu, hdone⟩
      · exact he ▸ hm
      · rw [ht] at hu
        cases hu
        rw [hd hd'] at hdone
        cases hdone
  work d t' ids ht' hd' ha' id u' hid hu' hud' hsess hlt := by
    obtain ⟨t, ht, hd, he, haw⟩ := deletion_before hn hs ht' hd' ha'
    rw [← he] at hsess
    rcases hs.task_before hu' with ⟨hstart, -⟩ | ⟨u, hu, hue, hud⟩
    · exfalso
      rcases hstart.isWork_cases hid with ⟨agent, rfl, rfl, -⟩ |
        ⟨n, v, a, rfl, rfl, hv, hvd, hdue, hadm, hav⟩
      · exact absurd (hn.tasks _ t ht) (Nat.lt_asymm hlt)
      · rcases haw with ha | ⟨hev, -⟩
        · obtain ⟨b, hb, hbs⟩ := hn.request n v hv
          rw [hadm] at hb
          cases hb
          have hdue' := h.cancelled d t ids ht hd ha n v hv hvd (hbs.symm.trans (hav.trans hsess)) hlt
          rw [hdue'] at hdue
          cases hdue
        · cases hev
    · have hus := hue.trans hsess
      rcases haw with ha | ⟨-, rfl⟩
      · exact h.work d t ids ht hd ha id u hid hu (hud hud') hus hlt
      · exact mem_toCancel_of_member (hus ▸ htr.running id u hid hu (hud hud'))
  drain d t' ids ht' hd' ha' f hf hlt := by
    obtain ⟨t, ht, hd, he, haw⟩ := deletion_before hn hs ht' hd' ha'
    rw [← he] at hf
    rcases hs.finalizationTasks_or hf with hf | ⟨rfl, rfl, -⟩
    · rcases haw with ha | ⟨-, rfl⟩
      · exact h.drain d t ids ht hd ha f hf hlt
      · exact mem_toCancel_of_finalization hf
    · exact absurd (hn.tasks _ t ht) (Nat.lt_asymm hlt)
  cancelled d t' ids ht' hd' ha' n u' hu' hud' hsess hlt := by
    obtain ⟨t, ht, hd, he, haw⟩ := deletion_before hn hs ht' hd' ha'
    rw [← he] at hsess
    rcases hs.task_before hu' with ⟨hstart, -⟩ | ⟨u, hu, hue, hud⟩
    · exfalso
      rcases hstart.isWork_cases rfl with ⟨agent, rfl, hid, -⟩ | ⟨m, v, a, -, hid, -⟩
      · cases hid
        exact absurd (hn.tasks _ t ht) (Nat.lt_asymm hlt)
      · cases hid
    · have hus := hue.trans hsess
      rcases haw with ha | ⟨rfl, rfl⟩
      · exact due_kept hn hs hu (h.cancelled d t ids ht hd ha n u hu (hud hud') hus hlt) hu' hud'
      · have hm : TaskId.request n ∈ l.toCancel t.session :=
          mem_toCancel_of_member (hus ▸ htr.running _ u rfl hu (hud hud'))
        cases hs with
        | cancelAll _ v hv hvd hva =>
          rw [ht] at hv
          cases hv
          simp only [Lifecycle.cancelAll, if_pos hm, hu, Option.map_some, Option.some.injEq] at hu'
          subst hu'
          exact cancel_due hud'

end Registered

/-! ## 2. What a session holds -/

/-- Streams and turn locks belong to a well-formed session that tracks them. -/
structure Bound (l : Lifecycle) : Prop where
  admitted : ∀ n a, l.admitted n = some a → isSessionId a.session = true
  streams : ∀ s x, x ∈ l.sessionStreams.members s →
    isSessionId s = true ∧ ∃ agent, x = streamId s agent
  turnLocks : ∀ x k, l.turnLocks.get? x = some k → ∃ s, x ∈ l.sessionStreams.members s

/-- A stream is released, or stays tracked. -/
theorem Lifecycle.release_streams {d : Nat} {t : Task} {raising : List String} {s x : String}
    (hx : x ∈ l.sessionStreams.members s) :
    x ∈ (l.release d t raising).sessionStreams.members s ∨
      x ∈ (l.toRelease t.session).filter (· ∉ raising) := by
  by_cases hrel : x ∈ (l.toRelease t.session).filter (· ∉ raising)
  · exact .inr hrel
  · refine .inl ?_
    simp only [Lifecycle.release]
    split
    · exact hx
    · next hall =>
      rw [Dict.members_erase, if_neg]
      · exact hx
      · rintro rfl
        have hmem : x ∈ l.toRelease t.session := by
          unfold Lifecycle.toRelease
          split
          · next hnil =>
            rw [hnil] at hx
            cases hx
          · exact hx
        simp only [List.any_eq_true, decide_eq_true_eq, not_exists, not_and] at hall
        exact hrel (List.mem_filter.mpr ⟨hmem, by simpa using hall x hmem⟩)

/-- The lock of a stream is not kept longer than the stream. -/
theorem LifeStep.lock_bound (hs : LifeStep l e l') {s x : String} {k : Nat}
    (hx : x ∈ l.sessionStreams.members s) (hk : l'.turnLocks.get? x = some k) :
    x ∈ l'.sessionStreams.members s := by
  cases hs with
  | admission session agent hf => exact Dict.mem_addTo.mpr (.inr hx)
  | release d t ids raising ht hd ha hids =>
    have hk : (List.foldl (fun d k => d.erase k) l.turnLocks _).get? x = some k := hk
    rw [foldl_erase] at hk
    refine (Lifecycle.release_streams hx).resolve_right fun hrel => ?_
    rw [if_pos hrel] at hk
    cases hk
  | _ => exact hx

namespace Bound

theorem empty : Bound .empty := by
  constructor <;> intros <;> contradiction

/-- The data of a task under way that was under way before. -/
theorem admitted_before (hn : Numbered l) (hs : LifeStep l e l') {id : TaskId} {t : Task}
    {a : Admitted} (ht : l.tasks id = some t) (ha : l'.admitted id.number = some a) :
    l.admitted id.number = some a := by
  rcases hs.admitted_or ha with ha | ⟨session, agent, -, he, -⟩
  · exact ha
  · exact absurd (he ▸ hn.tasks id t ht) (Nat.lt_irrefl _)

theorem step (h : Bound l) (hs : LifeStep l e l') (hw : ValidIds e) : Bound l' where
  admitted n a ha := by
    rcases hs.admitted_or ha with ha | ⟨session, agent, rfl, -, rfl⟩
    · exact h.admitted n a ha
    · exact hw
  streams s x hx := by
    rcases hs.streams_or hx with hx | ⟨agent, rfl, rfl⟩
    · exact h.streams s x hx
    · exact ⟨hw, agent, rfl⟩
  turnLocks x k hk := by
    rcases hs.turnLocks_or hk with hk' | ⟨session, agent, rfl, rfl, rfl⟩
    · obtain ⟨s, hx⟩ := h.turnLocks x k hk'
      exact ⟨s, hs.lock_bound hx hk⟩
    · exact ⟨session, hs.admission_streams⟩

/-- **A session releases its own streams only.** -/
theorem own_stream (h : Bound l) {s : String} (hs : isSessionId s = true) {a : Admitted}
    (ha : isSessionId a.session = true) (hx : a.stream ∈ l.toRelease s) : a.session = s := by
  unfold Lifecycle.toRelease at hx
  split at hx
  · have he : streamId a.session a.agent = s := List.mem_singleton.mp hx
    have hdash : '-' ∈ s.toList := by
      rw [← he]
      simp [streamId]
    exact absurd hdash (isSessionId_no_dash hs)
  · obtain ⟨-, agent, he⟩ := h.streams s _ hx
    exact (streamId_inj ha hs he).1

end Bound

/-- What holds of session `s` as long as nothing of it is created behind a deletion. -/
structure Settled (l : Lifecycle) (s : String) : Prop where
  older : ∀ d t, l.tasks (.deletion d) = some t → t.done = false → t.session = s → ∀ id u,
    (∀ d', id ≠ .deletion d') → l.tasks id = some u → u.session = s → id.number < d
  finalization : ∀ f t, l.tasks (.finalization f) = some t → t.done = false → t.session = s →
    l.finalizationTasks.get? s = some f
  running : ∀ id t a, id.isWork = true → l.tasks id = some t → t.done = false →
    l.admitted id.number = some a → a.session = s → a.stream ∈ l.sessionStreams.members s

namespace Settled

variable {s : String}

theorem empty : Settled .empty s := by
  constructor <;> intros <;> contradiction

/-- A deletion that releases its session waited for all of it. -/
theorem releases (hreg : Registered l) (h : Settled l s) (hr : Releases l e s) :
    (∀ id u, id.isWork = true → l.tasks id = some u → u.session = s → u.done = true) ∧
      ∀ f u, l.finalizationTasks.get? s = some f → l.tasks (.finalization f) = some u →
        u.session = s → u.done = true := by
  obtain ⟨d, raising, t, ids, -, ht, hd, rfl, ha, hids⟩ := hr.event
  refine ⟨fun id u hid hu hsess => ?_, fun f u hf hu hsess => ?_⟩
  · have hlt := h.older d t ht hd rfl id u (fun d' he => by rw [he] at hid; cases hid) hu hsess
    by_contra hne
    have hd' : u.done = false := by simpa using hne
    have hlive := hids id (hreg.work d t ids ht hd ha id u hid hu hd' hsess hlt)
    exact hne (Lifecycle.not_live hlive hu)
  · have hlt := h.older d t ht hd rfl (.finalization f) u (fun d' he => by cases he) hu hsess
    exact Lifecycle.not_live (hids _ (hreg.drain d t ids ht hd ha f hf hlt)) hu

/-- The work of a session that is released has ended. -/
theorem released (hn : Numbered l) (hreg : Registered l) (h : Settled l s)
    (hr : Releases l e s) {id : TaskId} {t : Task} {a : Admitted} (hid : id.isWork = true)
    (ht : l.tasks id = some t) (ha : l.admitted id.number = some a) (hs : a.session = s) :
    t.done = true := by
  refine (h.releases hreg hr).1 id t hid ht ?_
  cases id with
  | request n =>
    obtain ⟨b, hb, hbs⟩ := hn.request n t ht
    have hb' : some a = some b := ha.symm.trans hb
    cases hb'
    exact hbs.symm.trans hs
  | turn n =>
    obtain ⟨b, hb, hbs⟩ := hn.turn n t ht
    have hb' : some a = some b := ha.symm.trans hb
    cases hb'
    exact hbs.symm.trans hs
  | finalization | deletion => cases hid

theorem step (hn : Numbered l) (hreg : Registered l) (h : Settled l s) (hs : LifeStep l e l')
    (ho : Orderly l s e) : Settled l' s where
  older d t' ht' hd' hts id u' hid hu' hsess := by
    rcases hs.task_before ht' with ⟨hstart, -⟩ | ⟨t, ht, he, hd⟩
    · -- a deletion that begins is younger than all there is
      generalize t'.session = s' at hstart
      cases hstart with
      | deletion _ _ =>
        rcases hs.task_before hu' with ⟨hstart', -⟩ | ⟨u, hu, -⟩
        · generalize u'.session = s' at hstart'
          cases hstart' with
          | deletion _ _ => exact absurd rfl (hid _)
        · exact hn.tasks id u hu
    · rw [← he] at hts
      rcases hs.task_before hu' with ⟨hstart, -⟩ | ⟨u, hu, hue, -⟩
      · rw [hsess] at hstart
        cases hstart with
        | request _ agent hf => exact absurd ⟨d, t, ht, hd hd', hts⟩ (ho rfl)
        | finalization _ hf => exact absurd ⟨d, t, ht, hd hd', hts⟩ (ho rfl)
        | deletion _ _ => exact absurd rfl (hid _)
        | turn n v a hv hvd hdue ha hq hfree =>
          -- the pipeline is as old as its request
          obtain ⟨b, hb, hbs⟩ := hn.request n v hv
          rw [ha] at hb
          cases hb
          exact h.older d t ht (hd hd') hts (.request n) v (fun _ he => by cases he) hv hbs.symm
      · exact h.older d t ht (hd hd') hts id u hid hu (hue.trans hsess)
  finalization f t' ht' hd' hts := by
    rcases hs.task_before ht' with ⟨hstart, -⟩ | ⟨t, ht, he, hd⟩
    · rw [hts] at hstart
      cases hstart with
      | finalization _ hf =>
        cases hs
        exact Dict.get?_set_self _ _ _
    · rw [← he] at hts
      have hf := h.finalization f t ht (hd hd') hts
      rcases hs.finalizationTasks_kept hf with hf' | hr
      · exact hf'
      · have hdone := (h.releases hreg hr).2 f t hf ht hts
        rw [hd hd'] at hdone
        cases hdone
  running id t' a hid ht' hd' ha' has := by
    rcases hs.task_before ht' with ⟨hstart, -⟩ | ⟨t, ht, he, hd⟩
    · rcases hstart.isWork_cases hid with ⟨agent, rfl, rfl, -⟩ | ⟨n, v, b, rfl, rfl, hv, hvd, _, hb, _⟩
      · have hmem := hs.admission_streams
        cases hs with
        | admission _ _ hf =>
          have ha' : Function.update l.admitted l.created _ l.created = some a := ha'
          rw [Function.update_self] at ha'
          cases ha'
          cases has
          exact hmem
      · have hab : l'.admitted n = some b := hn.admitted_after hs hb
        have ha'' : l'.admitted n = some a := ha'
        rw [hab] at ha''
        cases ha''
        rcases hs.streams_kept (h.running (.request n) v a rfl hv hvd hb has) with hm | hr
        · exact hm
        · obtain ⟨d, raising, u, ids, hev, -⟩ := hr.event
          cases hev
    · have ha := Bound.admitted_before hn hs ht ha'
      rcases hs.streams_kept (h.running id t a hid ht (hd hd') ha has) with hm | hr
      · exact hm
      · have hdone := h.released hn hreg hr hid ht ha has
        rw [hd hd'] at hdone
        cases hdone

end Settled

/-! ## 3. The locks -/

/-- Deletions name sessions. -/
def Named (l : Lifecycle) : Prop :=
  ∀ d t, l.tasks (.deletion d) = some t → isSessionId t.session = true

theorem Named.step (h : Named l) (hs : LifeStep l e l')
    (hd : ∀ s, e = .delete s → isSessionId s = true) : Named l' := by
  intro d t' ht'
  rcases hs.task_before ht' with ⟨hstart, -⟩ | ⟨t, ht, he, -⟩
  · generalize t'.session = s at hstart ⊢
    cases hstart with
    | deletion _ _ => exact hd s rfl
  · exact he ▸ h d t ht

/-- A pipeline under way holds its lock object, and whatever is under way on a stream goes by the
    stream's current lock object. -/
structure Locked (l : Lifecycle) : Prop where
  held : ∀ n t a, l.tasks (.turn n) = some t → t.done = false → l.admitted n = some a →
    l.holders a.lock = some n
  current : ∀ id t a, id.isWork = true → l.tasks id = some t → t.done = false →
    l.admitted id.number = some a → l.turnLocks.get? a.stream = some a.lock

namespace Locked

theorem empty : Locked .empty := by
  constructor <;> intros <;> contradiction

theorem step (hn : Numbered l) (hreg : Registered l) (hb : Bound l) (hset : ∀ s, Settled l s)
    (hname : Named l) (h : Locked l) (hs : LifeStep l e l') : Locked l' where
  held n t' a ht' hd' ha' := by
    rcases hs.task_before ht' with ⟨hstart, -⟩ | ⟨t, ht, -, hd⟩
    · rcases hstart.isWork_cases rfl with ⟨agent, -, hid, -⟩ | ⟨m, v, b, rfl, hid, -, -, -, hadm, -⟩
      · cases hid
      · cases hid
        have hab := hn.admitted_after hs hadm
        rw [ha'] at hab
        cases hab
        cases hs with
        | acquire _ u b hu hud hdue hb hq hfree =>
          rw [hadm] at hb
          cases hb
          exact Function.update_self _ _ _
    · have ha : l.admitted n = some a := Bound.admitted_before hn hs ht ha'
      rcases hs.holders_kept (h.held n t a ht (hd hd') ha) with hk | ⟨u, hu, hdone⟩
      · exact hk
      · rw [ht] at hu
        cases hu
        rw [hd hd'] at hdone
        cases hdone
  current id t' a hid ht' hd' ha' := by
    rcases hs.task_before ht' with ⟨hstart, -⟩ | ⟨t, ht, -, hd⟩
    · rcases hstart.isWork_cases hid with ⟨agent, rfl, rfl, -⟩ | ⟨n, v, b, rfl, rfl, hv, hvd, _, hadm, _⟩
      · cases hs with
        | admission _ _ hf =>
          have ha' : Function.update l.admitted l.created _ l.created = some a := ha'
          rw [Function.update_self] at ha'
          cases ha'
          exact Dict.get?_set_self _ _ _
      · have hab : l'.admitted n = some b := hn.admitted_after hs hadm
        have ha'' : l'.admitted n = some a := ha'
        rw [hab] at ha''
        cases ha''
        rcases hs.turnLocks_kept (h.current (.request n) v a rfl hv hvd hadm) with hk | ⟨s, hr, -⟩
        · exact hk
        · obtain ⟨d, raising, u, ids, hev, -⟩ := hr.event
          cases hev
    · have ha := Bound.admitted_before hn hs ht ha'
      rcases hs.turnLocks_kept (h.current id t a hid ht (hd hd') ha) with hk | ⟨s, hr, hx⟩
      · exact hk
      · -- the lock of a stream is dropped behind the last task of its session
        obtain ⟨d, raising, u, ids, -, hu, -, rfl, -⟩ := hr.event
        have hsess := hb.own_stream (hname d u hu) (hb.admitted _ a ha) hx
        have hdone := (hset _).released hn hreg hr hid ht ha hsess
        rw [hd hd'] at hdone
        cases hdone

/-- **At most one pipeline of a stream is under way.** -/
theorem exclusive (h : Locked l) {n m : Nat} {t u : Task} {a b : Admitted}
    (ht : l.tasks (.turn n) = some t) (htd : t.done = false) (ha : l.admitted n = some a)
    (hu : l.tasks (.turn m) = some u) (hud : u.done = false) (hb : l.admitted m = some b)
    (hs : a.stream = b.stream) : n = m := by
  have hlock : a.lock = b.lock := by
    have h₁ := h.current (.turn n) t a rfl ht htd ha
    have h₂ := h.current (.turn m) u b rfl hu hud hb
    rw [hs, h₂] at h₁
    exact (Option.some.inj h₁).symm
  have h₁ := h.held n t a ht htd ha
  have h₂ := h.held m u b hu hud hb
  rw [hlock, h₂] at h₁
  exact (Option.some.inj h₁).symm

end Locked

end RolloutProxy
