/-
  File:      RolloutProxy/Service/OneTurn.lean
  Subject:   ONE TURN OF A STREAM AT A TIME, along every run of the server, and no lock that stays
             behind.

  * `locked_run`: the turn locks, as long as tombstones outlast their deletions and deletions name
    sessions;
  * `HoldsLocks`: the lock objects of the provider are held by the pipelines in a locked stage and
    by no one else, however a pipeline is cancelled.
-/
import RolloutProxy.Service.Deletion

namespace RolloutProxy

namespace LLMProxyServer

variable {cfg : ServerConfig} {w w' : LLMProxyServer} {e : ServerEvent}

/-! ## 1. The turn locks -/

/-- Tombstones outlast their deletions, and a deletion names a session. -/
def Careful (w : LLMProxyServer) (e : ServerEvent) (_ : LLMProxyServer) : Prop :=
  (∀ s, w.Timely s) ∧ ∀ session, e = .delete session → isSessionId session = true

/-- `Careful`, as it can be looked up. -/
def careful (w : LLMProxyServer) (e : ServerEvent) (_ : LLMProxyServer) : Bool :=
  w.timely && match e with
    | .delete session => isSessionId session
    | _ => true

theorem careful_exec {p : Provider} {es : List ServerEvent}
    (h : exec (step cfg) careful (.start p) es = some w) :
    Steps (step cfg) Careful (.start p) w := by
  have hrun := (exec_steps h).strengthen (I := fun w => Sound w.life ∧ Staged w)
    ⟨.empty, .start p⟩ fun t e u ⟨hsound, hst⟩ hs _ =>
      have hstep := step_server hsound hst hs
      ⟨hsound.server hstep, hst.step hsound hstep⟩
  refine hrun.1.mono fun t e _ ⟨⟨hsound, _⟩, hc⟩ => ?_
  unfold careful at hc
  obtain ⟨ht, hid⟩ := (Bool.and_eq_true _ _).mp hc
  refine ⟨(timely_iff hsound.numbered).mp ht, fun session he => ?_⟩
  subst he
  exact hid

theorem locked_run (h : Steps (step cfg) Careful (.start .empty) w) :
    Settles w.life ∧ Named w.life ∧ Locked w.life := by
  refine server_run (I := fun w => Settles w.life ∧ Named w.life ∧ Locked w.life) h
    ⟨.empty, (fun d t ht => by cases ht), .empty⟩
    fun t e u hsound _ hp ⟨hset, hname, hlock⟩ hs => ?_
  refine ⟨hset.server hsound hs hp.1, ?_⟩
  rcases hs.life with hl | ⟨le, hl, hfrom, -⟩
  · rw [hl]
    exact ⟨hname, hlock⟩
  · refine ⟨hname.step hl fun s hle => hp.2 s ?_,
      hlock.step hsound.numbered hsound.registered hsound.bound hset.settled hname hl⟩
    subst hle
    exact hfrom

/-- **One turn of a stream at a time**, and a turn lock is held by a pipeline under way, or its
    release is due. -/
theorem one_turn_at_a_time (h : Steps (step cfg) Careful (.start .empty) w) :
    (∀ n m t u a b, w.life.tasks (.turn n) = some t → t.done = false →
      w.life.tasks (.turn m) = some u → u.done = false → w.life.admitted n = some a →
        w.life.admitted m = some b → a.stream = b.stream → n = m) ∧
      ∀ k n, w.life.holders k = some n →
        w.life.live (.turn n) = true ∨ ∃ w', w.step cfg (.unlock n) = some w' := by
  obtain ⟨hsound, -⟩ := sound_run h
  refine ⟨fun n m t u a b ht htd hu hud ha hb hs =>
    (locked_run h).2.2.exclusive ht htd ha hu hud hb hs, fun k n hk => ?_⟩
  obtain ⟨a, t, ha, rfl, ht⟩ := hsound.numbered.holders k n hk
  cases hd : t.done with
  | false => exact .inl (Lifecycle.live_iff.mpr ⟨t, ht, hd⟩)
  | true =>
    refine .inr ⟨{ w with life := { w.life with
      holders := Function.update w.life.holders a.lock none } }, ?_⟩
    simp [step, lifeOnly, Lifecycle.step, ht, ha, hd, hk]

/-- The second request of a stream gets its lock behind the first pipeline. -/
def queued : List ServerEvent :=
  [.chat "s" "a" repeatedArgs, .chat "s" "a" repeatedArgs, .acquire 0, .turn 0 (.go .nothing),
    .disconnect 0, .leave 0, .turn 0 (.go .nothing), .delete "t"]

theorem one_turn_at_a_time_queued :
    ∃ w, exec (step silentServer) careful (.start .empty) queued = some w ∧
      w.life.live (.turn 0) = true ∧
        ∀ m u b, w.life.tasks (.turn m) = some u → u.done = false → w.life.admitted m = some b →
          b.stream = "s-a" → m = 0 := by
  have hrun : (exec (step silentServer) careful (.start .empty) queued).map
      (fun w => (w.life.live (.turn 0), (w.life.admitted 0).map (·.stream))) =
        some (true, some "s-a") := by decide +kernel
  obtain ⟨w, hw, heq⟩ := Option.map_eq_some_iff.mp hrun
  obtain ⟨hlive, ha⟩ := Prod.mk.inj heq
  obtain ⟨a, ha, hstream⟩ := Option.map_eq_some_iff.mp ha
  obtain ⟨t, ht, hd⟩ := Lifecycle.live_iff.mp hlive
  refine ⟨w, hw, hlive, fun m u b hu hud hb hbs => ?_⟩
  exact (one_turn_at_a_time (careful_exec hw)).1 m 0 u t b a hu hud ht hd hb ha
    (hbs.trans hstream.symm)

/-! ## 2. The locks of the provider -/

structure HoldsLocks (w : LLMProxyServer) : Prop where
  held : ∀ n a s k, w.life.admitted n = some a → w.turns n = some s → s.held = some k →
    w.sessionHolders (a.stream, k) = some n
  holder : ∀ x k n, w.sessionHolders (x, k) = some n →
    ∃ a s, w.life.admitted n = some a ∧ a.stream = x ∧ w.turns n = some s ∧ s.held = some k

namespace HoldsLocks

theorem start (p : Provider) : HoldsLocks (.start p) where
  held n a s k ha := by cases ha
  holder x k n h := by cases h

/-- No stage and no lock is touched, and no pipeline appears. -/
theorem kept (h : HoldsLocks w) (hturns : w'.turns = w.turns)
    (hholders : w'.sessionHolders = w.sessionHolders)
    (hadm : ∀ n a s, w'.turns n = some s → w'.life.admitted n = some a →
      w.life.admitted n = some a)
    (hkeep : ∀ n a, w.life.admitted n = some a → w'.life.admitted n = some a) : HoldsLocks w' where
  held n a s k ha hs hk := by
    rw [hholders]
    exact h.held n a s k (hadm n a s hs ha) (hturns ▸ hs) hk
  holder x k n hx := by
    rw [hholders] at hx
    obtain ⟨a, s, ha, hax, hs, hk⟩ := h.holder x k n hx
    exact ⟨a, s, hkeep n a ha, hax, by rw [hturns, hs], hk⟩

/-- One pipeline goes on with its locks. -/
theorem turned (h : HoldsLocks w) {n : Nat} {a : Admitted} {s s' : TurnStage}
    (ha : w.life.admitted n = some a) (hs : w.turns n = some s)
    (hturns : w'.turns = Function.update w.turns n (some s'))
    (hh : Holders w.sessionHolders w'.sessionHolders a.stream n s s')
    (hadm : ∀ n b, w'.life.admitted n = some b ↔ w.life.admitted n = some b) : HoldsLocks w' := by
  have other : ∀ m, m ≠ n → w'.turns m = w.turns m := fun m hne => by
    rw [hturns, Function.update_of_ne hne]
  have own : w'.turns n = some s' := by rw [hturns, Function.update_self]
  cases hh with
  | same hk he =>
    constructor
    · intro m b r k hb hr hrk
      rw [he]
      rcases eq_or_ne m n with rfl | hne
      · rw [own] at hr
        cases hr
        exact h.held m b s k ((hadm m b).mp hb) hs (hk ▸ hrk)
      · exact h.held m b r k ((hadm m b).mp hb) (other m hne ▸ hr) hrk
    · intro x k m hx
      rw [he] at hx
      obtain ⟨b, r, hb, hbx, hr, hrk⟩ := h.holder x k m hx
      rcases eq_or_ne m n with rfl | hne
      · rw [hs] at hr
        cases hr
        exact ⟨b, s', (hadm m b).mpr hb, hbx, own, hk ▸ hrk⟩
      · exact ⟨b, r, (hadm m b).mpr hb, hbx, (other m hne).trans hr, hrk⟩
  | taken j hsn hs' hfree he =>
    constructor
    · intro m b r k hb hr hrk
      rw [he, Function.update_apply]
      rcases eq_or_ne m n with rfl | hne
      · rw [own] at hr
        cases hr
        rw [hs'] at hrk
        cases hrk
        have hab := (hadm m b).mp hb
        rw [ha] at hab
        cases hab
        exact if_pos rfl
      · have hold := h.held m b r k ((hadm m b).mp hb) (other m hne ▸ hr) hrk
        rw [if_neg, hold]
        intro heq
        rw [heq, hfree] at hold
        cases hold
    · intro x k m hx
      rw [he, Function.update_apply] at hx
      split at hx
      · next heq =>
        cases heq
        cases hx
        exact ⟨a, s', (hadm n a).mpr ha, rfl, own, hs'⟩
      · obtain ⟨b, r, hb, hbx, hr, hrk⟩ := h.holder x k m hx
        rcases eq_or_ne m n with rfl | hne
        · rw [hs] at hr
          cases hr
          rw [hsn] at hrk
          cases hrk
        · exact ⟨b, r, (hadm m b).mpr hb, hbx, (other m hne).trans hr, hrk⟩
  | left j hsn hs' he =>
    constructor
    · intro m b r k hb hr hrk
      rw [he, Function.update_apply]
      rcases eq_or_ne m n with rfl | hne
      · rw [own] at hr
        cases hr
        rw [hs'] at hrk
        cases hrk
      · have hold := h.held m b r k ((hadm m b).mp hb) (other m hne ▸ hr) hrk
        rw [if_neg, hold]
        intro heq
        -- the lock object that is left has one holder
        rw [heq, h.held n a s j ha hs hsn] at hold
        cases hold
        exact hne rfl
    · intro x k m hx
      rw [he, Function.update_apply] at hx
      split at hx
      · cases hx
      · next hneq =>
        obtain ⟨b, r, hb, hbx, hr, hrk⟩ := h.holder x k m hx
        rcases eq_or_ne m n with rfl | hne
        · rw [hs] at hr
          cases hr
          rw [hsn] at hrk
          cases hrk
          rw [ha] at hb
          cases hb
          exact absurd (by rw [hbx]) hneq
        · exact ⟨b, r, (hadm m b).mpr hb, hbx, (other m hne).trans hr, hrk⟩

theorem admitted_iff {l l' : Lifecycle} {le : LifeEvent} (hn : Numbered l) (hl : LifeStep l le l')
    (hle : ∀ session agent, le ≠ .admission session agent) (n : Nat) (b : Admitted) :
    l'.admitted n = some b ↔ l.admitted n = some b :=
  ⟨Staged.admitted_of hl hle, hn.admitted_after hl⟩

theorem moved (hn : Numbered w.life) (h : HoldsLocks w) {n : Nat} {t : Task} {a : Admitted}
    {stage s' : TurnStage} (hp : w.Piece n t a stage) (hm : w.Moves n a stage s' w') :
    HoldsLocks w' := by
  refine h.turned hp.admitted hp.turn hm.turns hm.holders fun m b => ?_
  rcases hm.life with ⟨-, hl⟩ | ⟨r, answer, -, -, hl⟩
  · rw [hl]
  · exact admitted_iff hn hl (by simp) m b

theorem step (hsound : Sound w.life) (hst : Staged w) (h : HoldsLocks w)
    (hs : ServerStep cfg w e w') : HoldsLocks w' := by
  have hadm : (∀ session agent body, e ≠ .chat session agent body) → ∀ n b,
      w'.life.admitted n = some b ↔ w.life.admitted n = some b := by
    intro he n b
    rcases hs.life with hl | ⟨le, hl, hfrom, -⟩
    · rw [hl]
    · refine admitted_iff hsound.numbered hl (fun session agent hle => ?_) n b
      subst hle
      obtain ⟨body, hbody⟩ := hfrom
      exact he session agent body hbody
  cases hs with
  | chat session agent body model hs hd hm life hl =>
    refine h.kept rfl rfl (fun n a s hs ha => ?_) fun n a => hsound.numbered.admitted_after hl
    rcases hl.admitted_or ha with ha | ⟨-, -, -, rfl, -⟩
    · exact ha
    · obtain ⟨t, ht⟩ := hst.task _ s hs
      exact absurd (hsound.numbered.tasks _ t ht) (Nat.lt_irrefl _)
  | acquire n life hl =>
    -- the pipeline is a new one, so it holds no provider lock
    have hnone : w.turns n = none := by
      cases hturn : w.turns n with
      | none => rfl
      | some s =>
        obtain ⟨t, ht⟩ := hst.task n s hturn
        cases hl with
        | acquire _ u a hu hd hdue ha hq hfree =>
          rw [hq] at ht
          cases ht
    have hadm := hadm (by simp)
    constructor
    · intro m b r k hb hr hrk
      have hr : Function.update w.turns n (some .fresh) m = some r := hr
      rcases eq_or_ne m n with rfl | hne
      · rw [Function.update_self] at hr
        cases hr
        cases hrk
      · rw [Function.update_of_ne hne] at hr
        exact h.held m b r k ((hadm m b).mp hb) hr hrk
    · intro x k m hx
      obtain ⟨b, r, hb, hbx, hr, hrk⟩ := h.holder x k m hx
      refine ⟨b, r, (hadm m b).mpr hb, hbx, (Function.update_of_ne ?_ _ _).trans hr, hrk⟩
      rintro rfl
      rw [hnone] at hr
      cases hr
  | turn n i t a stage stage' w' hp hm => exact h.moved hsound.numbered hp hm
  | interrupt n t a stage w' hp hdue hi =>
    cases hi with
    | drains g life hs hw hl =>
      refine h.turned hp.admitted hp.turn rfl (.same ?_ rfl) (hadm (by simp))
      rw [hs, TurnStage.held_generating hw, TurnStage.held_draining hw]
    | ends w' hm => exact h.moved hsound.numbered hp hm
  | _ =>
    exact h.kept rfl rfl (fun n a _ _ => (hadm (by simp) n a).mp) fun n a =>
      (hadm (by simp) n a).mpr

end HoldsLocks

/-- **A lock of the provider is held by one pipeline under way**, in whatever order pipelines go on
    and are cancelled: no generation of a stream overlaps another under the same lock, and no lock
    stays behind a pipeline that has ended. -/
theorem provider_locks_held {P : LLMProxyServer → ServerEvent → LLMProxyServer → Prop}
    (h : Steps (step cfg) P (.start .empty) w) :
    (∀ n m a b s r k, w.life.admitted n = some a → w.life.admitted m = some b →
      w.turns n = some s → w.turns m = some r → s.held = some k → r.held = some k →
        a.stream = b.stream → n = m) ∧
      ∀ x k n, w.sessionHolders (x, k) = some n → w.life.live (.turn n) = true := by
  have hlocks : w.HoldsLocks := server_run (I := HoldsLocks) h (.start .empty)
    fun _ _ _ hsound hst _ hi hs => hi.step hsound hst hs
  obtain ⟨-, hst⟩ := sound_run h
  refine ⟨fun n m a b s r k ha hb hs hr hsk hrk hab => ?_, fun x k n hx => ?_⟩
  · have hn := hlocks.held n a s k ha hs hsk
    have hm := hlocks.held m b r k hb hr hrk
    rw [hab, hm] at hn
    exact (Option.some.inj hn).symm
  · obtain ⟨a, s, -, -, hs, hk⟩ := hlocks.holder x k n hx
    obtain ⟨t, ht⟩ := hst.task n s hs
    obtain ⟨s', hs', hfit⟩ := hst.stage n t ht
    rw [hs] at hs'
    cases hs'
    refine Lifecycle.live_iff.mpr ⟨t, ht, ?_⟩
    rw [Task.done_false]
    cases he : t.ending with
    | none => rfl
    | some r =>
      obtain ⟨answer, rfl, -⟩ := hfit.of_ending he
      cases hk

/-- Request 2 gets the old turn lock of its stream before a deletion releases it, request 3 a new
    one: two pipelines of one stream, and the provider's lock between them. -/
def contended : List ServerEvent :=
  [.chat "s" "a" repeatedArgs, .acquire 0, .turn 0 (.go .nothing), .turn 0 (.go .nothing),
    .delete "s", .cancelAll 1, .interrupt 0, .leave 0, .tick 3600, .turn 0 (.go .nothing),
    .turn 0 (.go .nothing), .unlock 0, .chat "s" "a" repeatedArgs, .acquire 2, .release 1 [],
    .chat "s" "a" repeatedArgs, .acquire 3, .turn 2 (.go .nothing), .turn 2 (.go .nothing),
    .turn 3 (.go .nothing)]

/-- Pipeline 2 of stream `s-a` holds the lock that pipeline 3 waits for. -/
def waits (w : LLMProxyServer) : Bool :=
  w.sessionHolders ("s-a", 1) == some 2 && w.life.live (.turn 3) &&
    (w.step silentServer (.turn 3 (.go .nothing))).isNone &&
    (w.life.admitted 2).map (·.stream) == some "s-a" && (w.turns 2).bind (·.held) == some 1

/-- Pipeline 2 holds the lock and no other does: pipeline 3 waits. -/
theorem provider_locks_held_contended :
    ∃ w, exec (step silentServer) (fun _ _ _ => true) (.start .empty) contended = some w ∧
      w.sessionHolders ("s-a", 1) = some 2 ∧ w.life.live (.turn 2) = true ∧
      w.life.live (.turn 3) = true ∧ w.step silentServer (.turn 3 (.go .nothing)) = none ∧
      ∀ m b r, w.life.admitted m = some b → b.stream = "s-a" → w.turns m = some r →
        r.held = some 1 → m = 2 := by
  have hrun : (exec (step silentServer) (fun _ _ _ => true) (.start .empty) contended).any
      waits = true := by decide +kernel
  obtain ⟨w, hw, heq⟩ := (Option.any_eq_true _ _).mp hrun
  simp only [waits, Bool.and_eq_true, beq_iff_eq, Option.isNone_iff_eq_none] at heq
  obtain ⟨⟨⟨⟨hholder, hthree⟩, hwaits⟩, hadmitted⟩, hheld⟩ := heq
  obtain ⟨a, ha, hstream⟩ := Option.map_eq_some_iff.mp hadmitted
  obtain ⟨s, hs, hlock⟩ := Option.bind_eq_some_iff.mp hheld
  have hlocks := provider_locks_held (exec_steps hw)
  exact ⟨w, hw, hholder, hlocks.2 "s-a" 1 2 hholder, hthree, hwaits, fun m b r hb hbs hr hrk =>
    (hlocks.1 2 m a b s r 1 ha hb hs hr hlock hrk (hstream.trans hbs.symm)).symm⟩

end LLMProxyServer

end RolloutProxy
