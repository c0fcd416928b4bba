/-
  File:      RolloutProxy/Service/Drain.lean
  Subject:   THE DRAIN OF A SESSION and its cancellations: when `_finalize_session` goes on, what it
             has waited for, and how often a pipeline is cancelled.

  * `Quiet`: behind a registered drain no task of the session is under way any more;
  * `Drains.woken`: a drain that waits and was not woken has a tracked task to wait for;
  * `Interrupted`: a pipeline is cancelled by one deletion, once;
  * `Forgotten`, `Past`: a deletion that has returned leaves nothing of the session behind, and
    nothing under way;
  * `Sound` collects the invariants of the server's tasks.
-/
import RolloutProxy.Service.TurnLocks

namespace RolloutProxy

variable {l l' : Lifecycle} {e : LifeEvent}

/-! ## 1. The event of a drain -/

namespace LifeStep

/-- The event of a session is replaced or dropped by a finalization of the session only. -/
theorem workChanged_kept (hs : LifeStep l e l') {s : String} {f : Nat}
    (h : l.workChanged.get? s = some f) :
    l'.workChanged.get? s = some f ∨
      ∃ f' t, l.tasks (.finalization f') = some t ∧ t.done = false ∧ t.session = s ∧
        (e = .drain f' ∧ l.drained f' = none ∨ ∃ r, e = .close f' r) := by
  cases hs with
  | drain f' t ht hd hdue hw =>
    simp only [Lifecycle.drain]
    split
    · next hnone =>
      by_cases hs : s = t.session
      · exact .inr ⟨f', t, ht, hd, hs.symm, .inl ⟨rfl, hnone⟩⟩
      · exact .inl ((Dict.get?_set_ne _ _ hs).trans h)
    · exact .inl h
  | close f' t r ht hd hc =>
    simp only [Lifecycle.close]
    split
    · exact .inl h
    · by_cases hs : s = t.session
      · exact .inr ⟨f', t, ht, hd, hs.symm, .inr ⟨r, rfl⟩⟩
      · exact .inl ((Dict.get?_erase_ne _ hs).trans h)
  | _ => exact .inl h

/-- Only its own finalization clears an event. -/
theorem eventSet_or (hs : LifeStep l e l') {f : Nat} (h : l'.eventSet f = false) :
    l.eventSet f = false ∨ e = .drain f := by
  have notified : ∀ s, l.notified s f = false → l.eventSet f = false := by
    intro s hf
    unfold Lifecycle.notified at hf
    cases hw : l.workChanged.get? s with
    | none => rwa [hw] at hf
    | some f' =>
      rw [hw] at hf
      simp only [Function.update_apply] at hf
      split at hf
      · cases hf
      · exact hf
  cases hs with
  | admission session agent hf => exact .inl (notified _ h)
  | acquire n t a ht hd hdue ha hq hfree => exact .inl (notified _ h)
  | leave n t r ht hd hleave => exact .inl (notified _ h)
  | untrack n t ht hd hm => exact .inl (notified _ h)
  | drain f' t ht hd hdue hw =>
    rcases eq_or_ne f f' with rfl | hne
    · exact .inr rfl
    · exact .inl ((Function.update_of_ne hne _ _).symm.trans h)
  | _ => exact .inl h

end LifeStep

/-! ## 2. The drain -/

/-- Behind a registered drain that has ended nothing of the session is under way. -/
def Quiet (l : Lifecycle) : Prop :=
  ∀ s f, l.finalizationTasks.get? s = some f → l.drained f = some true →
    ∀ id t, id.isWork = true → l.tasks id = some t → t.session = s → t.done = true

theorem Quiet.step (hn : Numbered l) (htr : Tracked l) (h : Quiet l) (hs : LifeStep l e l') :
    Quiet l' := by
  intro s f hf hdr id t' hid ht' hsess
  by_contra hlive
  have hd' : t'.done = false := by simpa using hlive
  have hdr_of : l.drained f = some true ∨ ∃ t, e = .drain f ∧
      l.tasks (.finalization f) = some t ∧ l.idle t.session = true := by
    rcases hs.drained_or hdr with h | ⟨t, he, ht, -, hi⟩
    · exact .inl h
    · exact .inr ⟨t, he, ht, hi.symm⟩
  -- the finalization was registered, or it could not have looked at its tasks yet
  have hf : l.finalizationTasks.get? s = some f := by
    rcases hs.finalizationTasks_or hf with hf | ⟨rfl, rfl, -⟩
    · exact hf
    · exfalso
      rcases hdr_of with hdr | ⟨t, he, -⟩
      · obtain ⟨t, ht⟩ := hn.drained _ _ hdr
        exact absurd (hn.tasks _ t ht) (Nat.lt_irrefl _)
      · cases he
  rcases hs.task_before ht' with ⟨hstart, -⟩ | ⟨t, ht, he, hd⟩
  · rcases hstart.isWork_cases hid with
      ⟨agent, rfl, rfl, hnone⟩ | ⟨n, v, b, rfl, rfl, hv, hvd, hdue, hb, hbs⟩
    · rw [hsess, hf] at hnone
      cases hnone
    · rcases hdr_of with hdr | ⟨t, he, -⟩
      · obtain ⟨c, hc, hcs⟩ := hn.request n v hv
        rw [hb] at hc
        cases hc
        have hdone := h s f hf hdr (.request n) v rfl hv (hcs.symm.trans (hbs.trans hsess))
        rw [hvd] at hdone
        cases hdone
      · cases he
  · rcases hdr_of with hdr | ⟨u, -, hu, hidle⟩
    · have hdone := h s f hf hdr id t hid ht (he.trans hsess)
      rw [hd hd'] at hdone
      cases hdone
    · obtain ⟨v, hv, hvs⟩ := hn.finalization s f hf
      rw [hu] at hv
      cases hv
      have hm := htr.running id t hid ht (hd hd')
      rw [he.trans (hsess.trans hvs.symm)] at hm
      have hnot : l.live id = false := by
        simpa using List.all_eq_true.mp hidle id hm
      have hdone := Lifecycle.not_live hnot ht
      rw [hd hd'] at hdone
      cases hdone

structure Drains (l : Lifecycle) : Prop where
  /-- a finalization that has begun listens to its session -/
  listens : ∀ f t b, l.tasks (.finalization f) = some t → t.done = false →
    l.drained f = some b → l.workChanged.get? t.session = some f
  /-- and waits for a task that will wake it, if it waits -/
  woken : ∀ f t, l.tasks (.finalization f) = some t → t.done = false → l.drained f = some false →
    l.eventSet f = false → l.sessionTasks.members t.session ≠ []

namespace Drains

theorem empty : Drains .empty := by
  constructor <;> intros <;> contradiction

theorem not_idle {s : String} (h : l.idle s = false) : l.sessionTasks.members s ≠ [] := by
  intro hnil
  unfold Lifecycle.idle at h
  rw [hnil] at h
  cases h

/-- A finalization that has looked at its tasks was there before. -/
theorem finalization_before (hn : Numbered l) (hs : LifeStep l e l') {f : Nat} {t' : Task}
    {b : Bool} (ht' : l'.tasks (.finalization f) = some t') (hd' : t'.done = false)
    (hb : l'.drained f = some b) :
    ∃ t, l.tasks (.finalization f) = some t ∧ t.done = false ∧ t.session = t'.session := by
  have hold : ∃ t, l.tasks (.finalization f) = some t := by
    rcases hs.drained_or hb with h | ⟨t, -, ht, -⟩
    · exact hn.drained f b h
    · exact ⟨t, ht⟩
  rcases hs.task_before ht' with ⟨hstart, -⟩ | ⟨t, ht, he, hd⟩
  · obtain ⟨t, ht⟩ := hold
    rw [hstart.absent hn] at ht
    cases ht
  · exact ⟨t, ht, hd hd', he⟩

theorem step (hn : Numbered l) (hset : ∀ s, Settled l s) (h : Drains l)
    (hs : LifeStep l e l') : Drains l' where
  listens f t' b ht' hd' hb := by
    obtain ⟨t, ht, hd, he⟩ := finalization_before hn hs ht' hd' hb
    rw [← he]
    have old : ∀ b, l.drained f = some b → l'.workChanged.get? t.session = some f := by
      intro b hb
      rcases hs.workChanged_kept (h.listens f t b ht hd hb) with hw | ⟨f', u, hu, hud, hus, hev⟩
      · exact hw
      · -- the one finalization under way of the session is `f`
        have hreg₁ := (hset t.session).finalization f t ht hd rfl
        have hreg₂ := (hset t.session).finalization f' u hu hud hus
        rw [hreg₁] at hreg₂
        cases hreg₂
        rcases hev with ⟨-, hnone⟩ | ⟨r, rfl⟩
        · rw [hb] at hnone
          cases hnone
        · cases hs with
          | close _ v _ hv hvd hvc =>
            have hv' : Function.update l.tasks (.finalization f) _ (.finalization f) = some t' := ht'
            rw [Function.update_self] at hv'
            cases hv'
            cases hd'
    rcases hs.drained_or hb with hb | ⟨u, rfl, hu, hud, -⟩
    · exact old b hb
    · cases hdr : l.drained f with
      | some b => exact old b hdr
      | none =>
        cases hs with
        | drain _ v hv hvd hvdue hw =>
          rw [ht] at hv
          cases hv
          simp only [Lifecycle.drain, if_pos hdr]
          exact Dict.get?_set_self _ _ _
  woken f t' ht' hd' hdr hev := by
    obtain ⟨t, ht, hd, he⟩ := finalization_before hn hs ht' hd' hdr
    rw [← he]
    by_cases hround : e = .drain f
    · subst hround
      cases hs with
      | drain _ v hv hvd hvdue hw =>
        rw [ht] at hv
        cases hv
        have hidle : Function.update l.drained f (some (l.idle t.session)) f = some false := hdr
        rw [Function.update_self] at hidle
        exact not_idle (Option.some.inj hidle)
    · have hdr₀ : l.drained f = some false := by
        rcases hs.drained_or hdr with h | ⟨u, hev, -⟩
        · exact h
        · exact absurd hev hround
      have hev₀ : l.eventSet f = false := (hs.eventSet_or hev).resolve_right hround
      -- what was tracked still is, or its leaving sets the event
      obtain ⟨id, hid⟩ := List.exists_mem_of_ne_nil _ (h.woken f t ht hd hdr₀ hev₀)
      rcases hs.tracked_kept hid with hm | ⟨-, hset⟩
      · exact List.ne_nil_of_mem hm
      · rw [hset f (h.listens f t false ht hd hdr₀)] at hev
        cases hev

end Drains

/-! ## 3. Cancellations -/

structure Interrupted (l : Lifecycle) : Prop where
  once : ∀ n t, l.tasks (.turn n) = some t → t.done = false → t.interrupted = true → t.due = false
  by_deletion : ∀ n t, l.tasks (.turn n) = some t → t.done = false →
    t.due = true ∨ t.interrupted = true →
    ∃ d u ids, l.tasks (.deletion d) = some u ∧ u.done = false ∧ u.session = t.session ∧
      l.awaited d = some ids ∧ .turn n ∈ ids

namespace Interrupted

theorem empty : Interrupted .empty := by
  constructor <;> intros <;> contradiction

/-- A deletion goes on waiting for a pipeline under way. -/
theorem waits (hn : Numbered l) (hs : LifeStep l e l') {d n : Nat} {u t : Task}
    {ids : List TaskId} (hu : l.tasks (.deletion d) = some u) (hud : u.done = false)
    (ha : l.awaited d = some ids) (hm : .turn n ∈ ids) (ht : l.tasks (.turn n) = some t)
    (hd : t.done = false) :
    ∃ u', l'.tasks (.deletion d) = some u' ∧ u'.done = false ∧ u'.session = u.session ∧
      l'.awaited d = some ids := by
  obtain ⟨u', hu', hud', hus⟩ := hs.running_after hu hud (hn.tasks _ u hu) fun hend => by
    cases hend with
    | deletion _ ids' raising ha' hids =>
      rw [ha] at ha'
      cases ha'
      have hdone := Lifecycle.not_live (hids _ hm) ht
      rw [hd] at hdone
      cases hdone
  exact ⟨u', hu', hud', hus, hs.awaited_kept ha⟩

theorem mem_toCancel_turn {s : String} {n : Nat} (h : TaskId.turn n ∈ l.toCancel s) :
    .turn n ∈ l.sessionTasks.members s := by
  rcases List.mem_append.mp h with h | h
  · exact h
  · obtain ⟨f, -, he⟩ := Option.map_eq_some_iff.mp (Option.mem_toList.mp h)
    cases he

theorem step (hn : Numbered l) (htr : Tracked l) (hreg : Registered l) (h : Interrupted l)
    (hs : LifeStep l e l') : Interrupted l' := by
  -- whoever is asked to stop by a deletion was not asked before
  have asked : ∀ n t d, l.tasks (.turn n) = some t → t.done = false → Cancels l e (.turn n) →
      e = .cancelAll d → (∃ u, l.tasks (.deletion d) = some u ∧ u.done = false ∧
        u.session = t.session ∧ .turn n ∈ l.toCancel u.session) ∧ t.interrupted = false := by
    intro n t d ht hd hc he
    subst he
    cases hc with
    | deletion _ u _ hu hud ha hid =>
      obtain ⟨v, hv, hvs⟩ := htr.session _ _ (mem_toCancel_turn hid)
      rw [ht] at hv
      cases hv
      refine ⟨⟨u, hu, hud, hvs.symm, hid⟩, ?_⟩
      by_contra hi
      obtain ⟨d', u', ids, hu', hud', hus', ha', -⟩ :=
        h.by_deletion n t ht hd (.inr (by simpa using hi))
      have h₁ := hreg.deletion d u hu hud
      have h₂ := hreg.deletion d' u' hu' hud'
      rw [hus', hvs, h₁] at h₂
      cases h₂
      rw [ha] at ha'
      cases ha'
  constructor
  · intro n t' ht' hd' hi
    cases hs.task (.turn n) with
    | kept h' => exact h.once n t' (h'.symm.trans ht') hd' hi
    | starts session hstart h' =>
      rw [ht'] at h'
      cases h'
      rfl
    | cancelled t ht h' hc =>
      rw [ht'] at h'
      cases h'
      rw [Task.cancel_done] at hd'
      rw [Task.cancel_interrupted] at hi
      cases hc with
      | deletion d u _ hu hud ha hid =>
        have hno := (asked n t d ht hd' (.deletion d u _ hu hud ha hid) rfl).2
        rw [hi] at hno
        cases hno
    | interrupted m t hid he ht hd hdue h' =>
      rw [ht'] at h'
      cases h'
      rfl
    | ends t r ht hd hend h' =>
      rw [ht'] at h'
      cases h'
      rfl
  · intro n t' ht' hd' hstop
    cases hs.task (.turn n) with
    | kept h' =>
      have ht := h'.symm.trans ht'
      obtain ⟨d, u, ids, hu, hud, hus, ha, hm⟩ := h.by_deletion n t' ht hd' hstop
      obtain ⟨u', hu', hud', hus', ha'⟩ := waits hn hs hu hud ha hm ht hd'
      exact ⟨d, u', ids, hu', hud', hus'.trans hus, ha', hm⟩
    | starts session hstart h' =>
      rw [ht'] at h'
      cases h'
      rcases hstop with h | h <;> cases h
    | cancelled t ht h' hc =>
      rw [ht'] at h'
      cases h'
      rw [Task.cancel_done] at hd'
      cases hc with
      | deletion d v _ hv hvd ha hid =>
        obtain ⟨⟨u, hu, hud, hus, hm⟩, -⟩ := asked n t d ht hd' (.deletion d v _ hv hvd ha hid) rfl
        obtain ⟨u', hu', hud', hus'⟩ := hs.running_after hu hud (hn.tasks _ u hu) fun hend => by
          cases hend
        cases hs with
        | cancelAll _ w hw hwd hwa =>
          rw [hu] at hw
          cases hw
          exact ⟨d, u', l.toCancel u.session, hu', hud',
            hus'.trans (hus.trans (Task.cancel_session t).symm), Function.update_self _ _ _, hm⟩
    | interrupted m t hid he ht hd hdue h' =>
      rw [ht'] at h'
      cases h'
      obtain ⟨d, u, ids, hu, hud, hus, ha, hm⟩ := h.by_deletion n t ht hd (.inl hdue)
      obtain ⟨u', hu', hud', hus', ha'⟩ := waits hn hs hu hud ha hm ht hd
      exact ⟨d, u', ids, hu', hud', hus'.trans hus, ha', hm⟩
    | ends t r ht hd hend h' =>
      rw [ht'] at h'
      cases h'
      cases hd'

end Interrupted

/-! ## 4. Deletions -/

/-- Behind a deletion that has returned: what is tracked or registered for the session came later. -/
structure Forgotten (l : Lifecycle) : Prop where
  streams : ∀ d t xs, l.tasks (.deletion d) = some t → t.ending = some .returned →
    l.sessionStreams.get? t.session = some xs →
      ∃ n a, l.admitted n = some a ∧ a.session = t.session ∧ d < n
  /-- every one by a request for it -/
  tracked : ∀ d t x, l.tasks (.deletion d) = some t → t.ending = some .returned →
    x ∈ l.sessionStreams.members t.session →
      ∃ n a, l.admitted n = some a ∧ a.stream = x ∧ d < n
  finalization : ∀ d t f, l.tasks (.deletion d) = some t → t.ending = some .returned →
    l.finalizationTasks.get? t.session = some f → d < f

/-- The streams of a session are tracked from an admission of it on. -/
theorem LifeStep.sessionStreams_or (hs : LifeStep l e l') {s : String} {xs : List String}
    (h : l'.sessionStreams.get? s = some xs) :
    (∃ ys, l.sessionStreams.get? s = some ys) ∨ ∃ agent, e = .admission s agent := by
  cases hs with
  | admission session agent hf =>
    by_cases he : s = session
    · exact .inr ⟨agent, by rw [he]⟩
    · refine .inl ⟨xs, ?_⟩
      have h : (l.sessionStreams.addTo session (streamId session agent)).get? s = some xs := h
      unfold Dict.addTo at h
      split at h
      · exact h
      · rwa [Dict.get?_set_ne _ _ he] at h
  | release d t ids raising ht hd ha hids =>
    simp only [Lifecycle.release] at h
    split at h
    · exact .inl ⟨xs, h⟩
    · rw [Dict.get?_erase] at h
      split at h
      · cases h
      · exact .inl ⟨xs, h⟩
  | _ => exact .inl ⟨xs, h⟩

namespace Forgotten

theorem empty : Forgotten .empty := by
  constructor <;> intros <;> contradiction

/-- A deletion has returned already, or releases its session now. -/
theorem returned_before (hs : LifeStep l e l') {d : Nat} {t' : Task}
    (ht' : l'.tasks (.deletion d) = some t') (he : t'.ending = some .returned) :
    l.tasks (.deletion d) = some t' ∨ Releases l e t'.session ∧
      l'.sessionStreams.get? t'.session = none ∧ l'.finalizationTasks.get? t'.session = none := by
  cases hs.task (.deletion d) with
  | kept h => exact .inl (h.symm.trans ht')
  | starts session hstart h =>
    rw [ht'] at h
    cases h
    cases he
  | cancelled t ht h hc =>
    rw [ht'] at h
    cases h
    have hdone : t.done = true := by
      rw [← Task.cancel_done, Task.done, he]
      rfl
    rw [Task.cancel_of_done hdone]
    exact .inl ht
  | interrupted n t hid _ ht hd hdue h => cases hid
  | ends t r ht hd hend h =>
    cases hend with
    | deletion _ ids raising ha hids =>
      cases hs with
      | release _ u ids' _ hu hud ha' hids' =>
        have hu' : Function.update l.tasks (.deletion d) _ (.deletion d) = some t' := ht'
        rw [Function.update_self] at hu'
        cases hu'
        simp only [Task.finish, Option.some.injEq, ite_eq_right_iff, reduceCtorEq, imp_false] at he
        exact .inr ⟨⟨d, _, u, ids', rfl, hu, hud, rfl, ha', hids'⟩,
          by simp [Lifecycle.release, Task.finish, he], by simp [Lifecycle.release, Task.finish, he]⟩

theorem step (hn : Numbered l) (h : Forgotten l) (hs : LifeStep l e l') : Forgotten l' where
  streams d t xs ht he hx := by
    rcases returned_before hs ht he with ht | ⟨-, hnil, -⟩
    · rcases hs.sessionStreams_or hx with ⟨ys, hy⟩ | ⟨agent, rfl⟩
      · obtain ⟨n, a, ha, hsess, hlt⟩ := h.streams d t ys ht he hy
        exact ⟨n, a, hn.admitted_after hs ha, hsess, hlt⟩
      · have hlt : d < l.created := hn.tasks _ t ht
        cases hs with
        | admission _ _ hf => exact ⟨l.created, _, Function.update_self _ _ _, rfl, hlt⟩
    · rw [hnil] at hx
      cases hx
  tracked d t x ht he hx := by
    rcases returned_before hs ht he with ht | ⟨-, hnil, -⟩
    · rcases hs.streams_or hx with hx | ⟨agent, rfl, rfl⟩
      · obtain ⟨n, a, ha, hxa, hlt⟩ := h.tracked d t x ht he hx
        exact ⟨n, a, hn.admitted_after hs ha, hxa, hlt⟩
      · have hlt : d < l.created := hn.tasks _ t ht
        cases hs with
        | admission _ _ hf => exact ⟨l.created, _, Function.update_self _ _ _, rfl, hlt⟩
    · unfold Dict.members at hx
      rw [hnil] at hx
      cases hx
  finalization d t f ht he hf := by
    rcases returned_before hs ht he with ht | ⟨-, -, hnone⟩
    · rcases hs.finalizationTasks_or hf with hf | ⟨-, rfl, -⟩
      · exact h.finalization d t f ht he hf
      · exact hn.tasks _ t ht
    · rw [hnone] at hf
      cases hf

end Forgotten

/-- What is older than a deletion of session `s` is not under way behind it. -/
def Past (l : Lifecycle) (s : String) : Prop :=
  ∀ d t, l.tasks (.deletion d) = some t → t.ending = some .returned → t.session = s → ∀ id u,
    id.isWork = true → l.tasks id = some u → u.session = s → id.number < d → u.done = true

theorem Past.step {s : String} (hn : Numbered l) (hreg : Registered l) (hset : Settled l s)
    (h : Past l s) (hs : LifeStep l e l') : Past l' s := by
  intro d t' ht' he hts id u' hid hu' hus hlt
  have hbefore := Forgotten.returned_before hs ht' he
  rw [hts] at hbefore
  rcases hs.task_before hu' with ⟨hstart, -⟩ | ⟨u, hu, hue, hud⟩
  · rcases hbefore with ht | ⟨hr, -⟩
    · rcases hstart.isWork_cases hid with ⟨agent, -, rfl, -⟩ | ⟨n, v, b, -, rfl, hv, hvd, -, hb, hbs⟩
      · exact absurd (hn.tasks _ t' ht) (Nat.lt_asymm hlt)
      · -- a pipeline starts behind a request under way, which is as old
        obtain ⟨c, hc, hcs⟩ := hn.request n v hv
        rw [hb] at hc
        cases hc
        have hdone := h d t' ht he hts (.request n) v rfl hv (hcs.symm.trans (hbs.trans hus)) hlt
        rw [hvd] at hdone
        cases hdone
    · obtain ⟨d', raising, t, ids, rfl, -⟩ := hr.event
      generalize u'.session = s' at hstart
      cases hstart
  · have hdone : u.done = true := by
      rcases hbefore with ht | ⟨hr, -⟩
      · exact h d t' ht he hts id u hid hu (hue.trans hus) hlt
      · exact (hset.releases hreg hr).1 id u hid hu (hue.trans hus)
    by_contra hlive
    rw [hud (by simpa using hlive)] at hdone
    cases hdone

/-! ## 5. Every run -/

/-- What holds of the server's tasks at any time. -/
structure Sound (l : Lifecycle) : Prop where
  numbered : Numbered l
  tracked : Tracked l
  registered : Registered l
  bound : Bound l
  interrupted : Interrupted l
  forgotten : Forgotten l
  quiet : Quiet l

theorem Sound.empty : Sound .empty :=
  ⟨.empty, .empty, .empty, .empty, .empty, .empty, fun _ _ h => by cases h⟩

theorem Sound.step (h : Sound l) (hs : LifeStep l e l') (hw : ValidIds e) : Sound l' where
  numbered := h.numbered.step hs
  tracked := h.tracked.step h.numbered hs
  registered := h.registered.step h.numbered h.tracked hs
  bound := h.bound.step hs hw
  interrupted := h.interrupted.step h.numbered h.tracked h.registered hs
  forgotten := h.forgotten.step h.numbered hs
  quiet := h.quiet.step h.numbered h.tracked hs

/-- And as long as tombstones outlast their deletions. -/
structure Settles (l : Lifecycle) : Prop where
  settled : ∀ s, Settled l s
  drains : Drains l

theorem Settles.empty : Settles .empty := ⟨fun _ => .empty, .empty⟩

theorem Settles.step (hsound : Sound l) (h : Settles l) (hs : LifeStep l e l')
    (ho : ∀ s, Orderly l s e) : Settles l' where
  settled s := (h.settled s).step hsound.numbered hsound.registered hs (ho s)
  drains := h.drains.step hsound.numbered h.settled hs

end RolloutProxy
