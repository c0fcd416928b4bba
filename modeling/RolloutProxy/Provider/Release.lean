/-
  File:      RolloutProxy/Provider/Release.lean
  Subject:   IS A RELEASE FINAL? Calls begun before a release may still act behind it: `actsLate`
             lists the pieces that do. A run without them is decided by the later calls alone.

  * `resume_inert`: every other piece leaves the provider as it was.
  * `Same.resume`: a piece sees of the provider what `Same` compares.
  * `Locked`: a lock object has one holder, and only calls of one release share it.
  * `alone_exec`: without the earlier calls the run is the same run.
-/
import RolloutProxy.Provider.Interleaved
import RolloutProxy.Provider.Outcome

namespace RolloutProxy

/-! ## 1. What a provider is to its streams -/

/-- Two providers with the same pins, rejections, streams and runtime layers. -/
structure Same (p q : Provider) : Prop where
  sessionModels : q.sessionModels = p.sessionModels
  rejectedTurns : q.rejectedTurns = p.rejectedTurns
  manager : ∀ profile, q.manager profile = p.manager profile
  runtimeSampling : q.runtimeSampling = p.runtimeSampling
  runtimeCapture : q.runtimeCapture = p.runtimeCapture

namespace Same

variable {p q r : Provider}

theorem refl (p : Provider) : Same p p := ⟨rfl, rfl, fun _ => rfl, rfl, rfl⟩

theorem of_eq (h : q = p) : Same p q := h ▸ .refl p

theorem symm (h : Same p q) : Same q p :=
  ⟨h.1.symm, h.2.symm, fun k => (h.3 k).symm, h.4.symm, h.5.symm⟩

theorem trans (h : Same p q) (h' : Same q r) : Same p r :=
  ⟨h'.1.trans h.1, h'.2.trans h.2, fun k => (h'.3 k).trans (h.3 k), h'.4.trans h.4,
    h'.5.trans h.5⟩

/-- Equal managers, put back under equal names. -/
theorem setManager (h : Same p q) (profile : String) (m : TokenStreamManager) :
    Same (p.setManager profile m) (q.setManager profile m) where
  sessionModels := h.sessionModels
  rejectedTurns := h.rejectedTurns
  manager := fun k => by simp only [Provider.manager_setManager, h.manager]
  runtimeSampling := h.runtimeSampling
  runtimeCapture := h.runtimeCapture

/-- A manager put back as it was. -/
theorem setManager_self (profile : String) {m : TokenStreamManager}
    (hm : m = p.manager profile) : Same p (p.setManager profile m) where
  sessionModels := rfl
  rejectedTurns := rfl
  manager := fun k => by
    rw [Provider.manager_setManager]
    split
    · next hk => rw [hm, hk]
    · rfl
  runtimeSampling := rfl
  runtimeCapture := rfl

theorem sessionLock (p : Provider) (sid : String) : Same p (p.sessionLock sid) := by
  unfold Provider.sessionLock
  split
  · exact .refl p
  · exact ⟨rfl, rfl, fun _ => rfl, rfl, rfl⟩

theorem setPin (h : Same p q) (sid : String) (pin : Option String) :
    Same (p.setPin sid pin) (q.setPin sid pin) := by
  cases pin with
  | none => exact h
  | some name => exact { h with sessionModels := congrArg (·.set sid name) h.sessionModels }

end Same

/-! ## 2. The pieces that act -/

namespace Provider

variable (cfg : ProviderConfig) (p : Provider) (sid : String) (g : Generation)

/-- The piece pins the stream, spends a replay of its turn, makes it the one used last, records
    or clears a rejection, or commits a turn. -/
def actsLate : Awaited → Bool
  | .nothing =>
    match g.stage with
    | .pinRead pinned =>
      match resolvePinned cfg pinned g.args.model with
      | .ok (_, some _) => true
      | _ => false
    | .building r _ => (p.manager r.profile.name).sessions.contains sid
    | .decoding c _ => p.sessionModels.contains c.sid
    | _ => false
  | .replays _ =>
    match g.stage with
    | .looked r effort found =>
      match TokenStreamManager.repeatedTurn found g.args.messages effort with
      | .ok (some (_, turn)) => (p.manager r.profile.name).holdsTurn sid turn
      | _ => false
    | _ => false
  | .answer a =>
    match g.stage with
    | .calling c =>
      match cfg.transport.dialect.callEngine cfg.py cfg.npLoad c.call a with
      | .error e => deterministicRejection e
      | .ok _ => p.rejectedTurns.contains c.sid
    | _ => false

variable {cfg p sid g}

theorem afterPin_inert {pinned : Option String}
    (h : ∀ r name, resolvePinned cfg pinned g.args.model ≠ .ok (r, some name)) :
    (p.afterPin cfg sid g pinned).2 = p := by
  unfold afterPin
  cases hr : resolvePinned cfg pinned g.args.model with
  | error e => rfl
  | ok out =>
    obtain ⟨r, pin⟩ := out
    cases pin with
    | some name => exact absurd hr (h r name)
    | none =>
      simp only
      split <;> rfl

/-- What is served of an object that left the table changes no manager. -/
theorem serveFound_inert (c : ManagerConfig) (gone : Nat) {m : TokenStreamManager}
    {found : Option SessionState} {messages : List Fields} {effort : Option String}
    (h : ∀ st turn, TokenStreamManager.repeatedTurn found messages effort = .ok (some (st, turn)) →
      m.holdsTurn sid turn = false) :
    (m.serveFound c sid found messages effort gone).2 = m := by
  unfold TokenStreamManager.serveFound
  split
  · rfl
  · rfl
  · next st turn hr =>
    simp only [h st turn hr, Bool.false_eq_true, if_false]
    split <;> rfl

theorem afterLookup_inert {r : ResolvedModel} {effort : Option String}
    {found : Option SessionState} {gone : Nat}
    (h : ∀ st turn,
      TokenStreamManager.repeatedTurn found g.args.messages effort = .ok (some (st, turn)) →
      (p.manager r.profile.name).holdsTurn sid turn = false) :
    Same p (p.afterLookup sid g r effort found gone).2 := by
  have hm := serveFound_inert r.streams gone h
  unfold afterLookup
  split <;> next heq =>
    rw [heq] at hm
    exact .setManager_self _ hm

theorem afterBuild_inert {r : ResolvedModel} {effort : Option String}
    (h : (p.manager r.profile.name).sessions.contains sid = false) :
    Same p (p.afterBuild cfg sid g r effort).2 := by
  have hb : Same p (p.buildPrompt r sid g.args.messages g.args.tools effort).2 := by
    refine .setManager_self _ ?_
    unfold TokenStreamManager.buildPrompt
    simp only
    split
    · rfl
    · rfl
    · exact TokenStreamManager.touch_absent h
  unfold afterBuild
  split
  · next heq =>
    rw [heq] at hb
    exact hb
  · next heq =>
    rw [heq] at hb
    split <;> exact hb

theorem afterAnswer_inert {c : Pending} {a : EngineAnswer}
    (he : ∀ e, cfg.transport.dialect.callEngine cfg.py cfg.npLoad c.call a = .error e →
      deterministicRejection e = false)
    (hok : ∀ x, cfg.transport.dialect.callEngine cfg.py cfg.npLoad c.call a = .ok x →
      p.rejectedTurns.contains c.sid = false) :
    (p.afterAnswer cfg c a).2 = p := by
  unfold afterAnswer acceptAnswer
  cases hc : cfg.transport.dialect.callEngine cfg.py cfg.npLoad c.call a with
  | error e =>
    simp only [noteEngineRejection, he e hc, Bool.not_false, if_true]
  | ok x =>
    have hclear : p.clearRejection c.sid = p := by
      unfold clearRejection
      rw [Dict.erase_absent ((Dict.contains_eq_false_iff _ _).mp (hok x hc))]
    simp only [hclear]
    split
    · next heq =>
      split at heq <;> cases heq
      rfl
    · next heq =>
      split at heq <;> cases heq
      rfl

theorem afterDecode_inert {c : Pending} {s : Sampled} (h : p.sessionModels.contains c.sid = false) :
    (p.afterDecode c s).2 = p := by
  unfold afterDecode
  split
  · rfl
  · simp only [commitSampled, h, Bool.not_false, if_true]

/-- **A piece that does not act** leaves the provider as it was. -/
theorem resume_inert {i : Awaited} {n : Next} {q : Provider}
    (h : p.resume cfg sid g i = some (n, q)) (hi : p.actsLate cfg sid g i = false) : Same p q := by
  unfold resume at h
  unfold actsLate at hi
  -- each piece that may act asks for its own reason to; here none has one
  cases i with
  | nothing =>
    simp only at h hi
    split at h
    · cases h
      exact .refl p
    · next pinned hg =>
      rw [hg] at hi
      simp only at hi
      have hq : (p.afterPin cfg sid g pinned).2 = p := afterPin_inert fun r name e => by
        rw [e] at hi
        cases hi
      rw [Option.some.inj h] at hq
      exact .of_eq hq
    · cases h
      exact .refl p
    · cases h
      exact .refl p
    · cases h
      exact .refl p
    · next r effort hg =>
      rw [hg] at hi
      have hq : Same p (p.afterBuild cfg sid g r effort).2 := afterBuild_inert hi
      rw [Option.some.inj h] at hq
      exact hq
    · next c s hg =>
      rw [hg] at hi
      have hq : (p.afterDecode c s).2 = p := afterDecode_inert hi
      rw [Option.some.inj h] at hq
      exact .of_eq hq
    · cases h
  | replays gone =>
    simp only at h hi
    split at h
    · next r effort found hg =>
      rw [hg] at hi
      have hq : Same p (p.afterLookup sid g r effort found gone).2 :=
        afterLookup_inert fun st turn e => by
          simp only [e] at hi
          exact hi
      rw [Option.some.inj h] at hq
      exact hq
    · cases h
  | answer a =>
    simp only at h hi
    split at h
    · next c hg =>
      rw [hg] at hi
      simp only at hi
      have hq : (p.afterAnswer cfg c a).2 = p := by
        refine afterAnswer_inert (fun e he => ?_) (fun x hx => ?_)
        · rw [he] at hi
          exact hi
        · rw [hx] at hi
          exact hi
      rw [Option.some.inj h] at hq
      exact .of_eq hq
    · cases h

end Provider

/-! ## 3. What a piece sees -/

/-- The same outcome, and the same provider behind it. -/
structure SameOutcome {α : Type} (x y : α × Provider) : Prop where
  result : y.1 = x.1
  provider : Same x.2 y.2

namespace Same

variable {cfg : ProviderConfig} {p q : Provider} {sid : String} {g : Generation}

theorem afterPin (h : Same p q) (pinned : Option String) :
    SameOutcome (p.afterPin cfg sid g pinned) (q.afterPin cfg sid g pinned) := by
  unfold Provider.afterPin
  split
  · exact ⟨rfl, h⟩
  · split
    · exact ⟨rfl, h.setPin _ _⟩
    · exact ⟨rfl, h.setPin _ _⟩

theorem afterLookup (h : Same p q) (r : ResolvedModel) (effort : Option String)
    (found : Option SessionState) (gone : Nat) :
    SameOutcome (p.afterLookup sid g r effort found gone) (q.afterLookup sid g r effort found gone) := by
  unfold Provider.afterLookup
  rw [h.manager]
  split <;> exact ⟨rfl, h.setManager _ _⟩

theorem rejectedRepeat (h : Same p q) (messages : List Fields) (effort : Option String) :
    q.rejectedRepeat sid messages effort = p.rejectedRepeat sid messages effort := by
  unfold Provider.rejectedRepeat
  rw [h.rejectedTurns]

theorem callFor (h : Same p q) (r : ResolvedModel) (a : GenerateArgs) (effort : Option String)
    (ids : List Int) : q.callFor cfg r sid a effort ids = p.callFor cfg r sid a effort ids := by
  unfold Provider.callFor Provider.samplingParams Provider.assembledParams Provider.overrides
    Provider.captures
  rw [h.runtimeSampling, h.runtimeCapture]

theorem buildPrompt (h : Same p q) (sid : String) (r : ResolvedModel) (messages : List Fields)
    (tools : Json) (effort : Option String) :
    SameOutcome (p.buildPrompt r sid messages tools effort)
      (q.buildPrompt r sid messages tools effort) := by
  unfold Provider.buildPrompt
  rw [h.manager]
  exact ⟨rfl, h.setManager _ _⟩

theorem afterBuild (h : Same p q) (r : ResolvedModel) (effort : Option String) :
    SameOutcome (p.afterBuild cfg sid g r effort) (q.afterBuild cfg sid g r effort) := by
  have hb := h.buildPrompt sid r g.args.messages g.args.tools effort
  unfold Provider.afterBuild
  generalize p.buildPrompt r sid g.args.messages g.args.tools effort = x at hb
  generalize q.buildPrompt r sid g.args.messages g.args.tools effort = y at hb
  obtain ⟨_, p'⟩ := x
  obtain ⟨built, q'⟩ := y
  obtain ⟨rfl, hs⟩ := hb
  replace hs : Same p' q' := hs
  cases built with
  | error e => exact ⟨rfl, hs⟩
  | ok ids =>
    simp only [hs.callFor]
    split <;> exact ⟨rfl, hs⟩

theorem noteEngineRejection (h : Same p q) (sid : String) (messages : List Fields) (e : PyError)
    (effort : Option String) :
    SameOutcome (p.noteEngineRejection sid messages e effort)
      (q.noteEngineRejection sid messages e effort) := by
  unfold Provider.noteEngineRejection
  rw [h.rejectedTurns]
  split
  · exact ⟨rfl, h⟩
  · split
    · exact ⟨rfl, h⟩
    · exact ⟨rfl, { h with rejectedTurns := rfl }⟩

theorem acceptAnswer (h : Same p q) (cfg : ProviderConfig) (c : Pending) (a : EngineAnswer) :
    SameOutcome (p.acceptAnswer cfg c a) (q.acceptAnswer cfg c a) := by
  unfold Provider.acceptAnswer
  split
  · next e _ =>
    have hn := h.noteEngineRejection c.sid c.messages e c.effort
    exact ⟨congrArg Except.error hn.result, hn.provider⟩
  · have hc : Same (p.clearRejection c.sid) (q.clearRejection c.sid) :=
      { h with rejectedTurns := congrArg (·.erase c.sid) h.rejectedTurns }
    simp only
    split <;> exact ⟨rfl, hc⟩

theorem afterAnswer (h : Same p q) (c : Pending) (a : EngineAnswer) :
    SameOutcome (p.afterAnswer cfg c a) (q.afterAnswer cfg c a) := by
  have ha := h.acceptAnswer cfg c a
  unfold Provider.afterAnswer
  generalize p.acceptAnswer cfg c a = x at ha
  generalize q.acceptAnswer cfg c a = y at ha
  obtain ⟨_, p'⟩ := x
  obtain ⟨sampled, q'⟩ := y
  obtain ⟨rfl, hs⟩ := ha
  cases sampled <;> exact ⟨rfl, hs⟩

theorem afterDecode (h : Same p q) (c : Pending) (s : Sampled) :
    SameOutcome (p.afterDecode c s) (q.afterDecode c s) := by
  unfold Provider.afterDecode Provider.commitSampled
  rw [h.sessionModels, h.manager]
  split
  · exact ⟨rfl, h⟩
  · simp only
    split
    · exact ⟨rfl, h⟩
    · split
      · exact ⟨rfl, h⟩
      · exact ⟨rfl, h.setManager _ _⟩

/-- **A piece sees what `Same` compares.** -/
theorem resume (h : Same p q) {i : Awaited} {x : Next × Provider}
    (hx : p.resume cfg sid g i = some x) :
    ∃ y, q.resume cfg sid g i = some y ∧ SameOutcome x y := by
  unfold Provider.resume at hx ⊢
  cases i with
  | nothing =>
    simp only at hx ⊢
    split at hx <;> cases hx
    · exact ⟨_, rfl, by rw [h.sessionModels], h⟩
    · exact ⟨_, rfl, h.afterPin _⟩
    · exact ⟨_, rfl, by rw [h.manager], h⟩
    · exact ⟨_, rfl, rfl, h⟩
    · exact ⟨_, rfl, by unfold Provider.afterMiss; rw [h.rejectedRepeat], h⟩
    · exact ⟨_, rfl, h.afterBuild _ _⟩
    · exact ⟨_, rfl, h.afterDecode _ _⟩
  | replays gone =>
    simp only at hx ⊢
    split at hx <;> cases hx
    exact ⟨_, rfl, h.afterLookup _ _ _ _⟩
  | answer a =>
    simp only at hx ⊢
    split at hx <;> cases hx
    exact ⟨_, rfl, h.afterAnswer _ _⟩

end Same

/-! ## 4. Locks -/

namespace StreamCalls

variable {cfg : ProviderConfig} {sid : String} {w w' v : StreamCalls} {t : Nat} {g : Generation}

/-- A call behind the lock is its lock object's holder, and lock objects are those of releases
    that happened. -/
structure Locked (w : StreamCalls) : Prop where
  holder : ∀ t g, w.calls t = some g → g.stage.isWaiting = false → w.holders g.lock = some t
  lock : ∀ t g, w.calls t = some g → g.lock ≤ w.releases
  begun : ∀ t, w.started ≤ t → w.calls t = none
  unmade : ∀ l, w.releases < l → w.holders l = none
  returned : ∀ r ∈ w.returned, r.1 < w.started

theorem Locked.start (p : Provider) : Locked (.start p) where
  holder := fun _ g (hg : none = some g) => by cases hg
  lock := fun _ g (hg : none = some g) => by cases hg
  begun := fun _ _ => rfl
  unmade := fun _ _ => rfl
  returned := fun _ hr => absurd hr List.not_mem_nil

theorem Locked.begin (h : Locked w) (a : GenerateArgs) : Locked (w.begin sid a) := by
  unfold StreamCalls.begin
  split
  · refine ⟨h.holder, h.lock, fun t ht => h.begun t (Nat.le_of_succ_le ht), h.unmade,
      fun r hr => ?_⟩
    rcases List.mem_append.mp hr with hr | hr
    · exact Nat.lt_succ_of_lt (h.returned r hr)
    · rw [List.mem_singleton.mp hr]
      exact Nat.lt_succ_self _
  · refine ⟨fun t g hg hs => ?_, fun t g hg => ?_, fun t ht => ?_, h.unmade,
      fun r hr => Nat.lt_succ_of_lt (h.returned r hr)⟩
    · simp only [Function.update_apply] at hg
      split at hg
      · cases hg
        cases hs
      · exact h.holder t g hg hs
    · simp only [Function.update_apply] at hg
      split at hg
      · cases hg
        exact le_rfl
      · exact h.lock t g hg
    · simp only at ht
      simp only [Function.update_apply]
      rw [if_neg (by omega)]
      exact h.begun t (by omega)

theorem Locked.acquire (h : Locked w) (hg : w.calls t = some g) (hl : w.holders g.lock = none) :
    Locked (w.acquire t g) where
  holder := fun t' g' hg' hs => by
    simp only [StreamCalls.acquire, Function.update_apply] at hg' ⊢
    split at hg'
    · next e =>
      cases hg'
      rw [if_pos rfl, e]
    · have hh := h.holder t' g' hg' hs
      rw [if_neg fun e => by rw [e, hl] at hh; cases hh]
      exact hh
  lock := fun t' g' hg' => by
    simp only [StreamCalls.acquire, Function.update_apply] at hg' ⊢
    split at hg'
    · cases hg'
      exact h.lock t g hg
    · exact h.lock t' g' hg'
  begun := fun t' ht => by
    simp only [StreamCalls.acquire, Function.update_apply]
    rw [if_neg fun e => by
      have hn := h.begun t' ht
      rw [e, hg] at hn
      cases hn]
    exact h.begun t' ht
  unmade := fun l hlt => by
    have hlock := h.lock t g hg
    simp only [StreamCalls.acquire, Function.update_apply] at hlt ⊢
    rw [if_neg (by omega)]
    exact h.unmade l hlt
  returned := h.returned

theorem Locked.after (h : Locked w) (hg : w.calls t = some g) (hs : g.stage.isWaiting = false)
    (x : Next × Provider) : Locked (w.after t g x) := by
  have hh := h.holder t g hg hs
  have hlock := h.lock t g hg
  obtain ⟨next, p⟩ := x
  -- a call that goes on keeps the lock, one that returns leaves it
  cases next with
  | awaits stage =>
    refine ⟨fun t' g' hg' hs' => ?_, fun t' g' hg' => ?_, fun t' ht => ?_, h.unmade, h.returned⟩
    · simp only [StreamCalls.after, Function.update_apply] at hg' ⊢
      split at hg'
      · next e =>
        cases hg'
        rw [e]
        exact hh
      · exact h.holder t' g' hg' hs'
    · simp only [StreamCalls.after, Function.update_apply] at hg' ⊢
      split at hg'
      · cases hg'
        exact hlock
      · exact h.lock t' g' hg'
    · simp only [StreamCalls.after, Function.update_apply]
      rw [if_neg fun e => by
        have hn := h.begun t' ht
        rw [e, hg] at hn
        cases hn]
      exact h.begun t' ht
  | ended result =>
    refine ⟨fun t' g' hg' hs' => ?_, fun t' g' hg' => ?_, fun t' ht => ?_, fun l hl => ?_,
      fun r hr => ?_⟩
    · simp only [StreamCalls.after, Function.update_apply] at hg' ⊢
      split at hg'
      · cases hg'
      · next hne =>
        have hh' := h.holder t' g' hg' hs'
        rw [if_neg fun e => hne (by
          rw [e, hh] at hh'
          exact (Option.some.inj hh').symm)]
        exact hh'
    · simp only [StreamCalls.after, Function.update_apply] at hg' ⊢
      split at hg'
      · cases hg'
      · exact h.lock t' g' hg'
    · simp only [StreamCalls.after, Function.update_apply]
      split
      · rfl
      · exact h.begun t' ht
    · simp only [StreamCalls.after, Function.update_apply] at hl ⊢
      split
      · rfl
      · exact h.unmade l hl
    · rcases List.mem_append.mp hr with hr | hr
      · exact h.returned r hr
      · rw [List.mem_singleton.mp hr]
        by_contra hlt
        have hn := h.begun t (not_lt.mp hlt)
        rw [hg] at hn
        cases hn

/-- What a step is. -/
theorem step_cases {e : CallEvent} (h : w.step cfg sid e = some w') :
    (∃ a, e = .begin a ∧ a.sessionId = some sid ∧ w' = w.begin sid a) ∨
    (∃ t g, e = .resume t .nothing ∧ w.calls t = some g ∧ g.stage.isWaiting = true ∧
      w.holders g.lock = none ∧ w' = w.acquire t g) ∨
    (∃ t i g x, e = .resume t i ∧ w.calls t = some g ∧ g.stage.isWaiting = false ∧
      w.provider.resume cfg sid g i = some x ∧ w' = w.after t g x) ∨
    (e = .release ∧ w' = w.release sid) := by
  cases e with
  | begin a =>
    simp only [StreamCalls.step] at h
    split at h
    · next ha => exact .inl ⟨a, rfl, ha, (Option.some.inj h).symm⟩
    · cases h
  | resume t i =>
    simp only [StreamCalls.step] at h
    split at h
    · cases h
    · next g hg =>
      split at h
      · next hs =>
        split at h
        · next hl => exact .inr (.inl ⟨t, g, rfl, hg, hs, hl, (Option.some.inj h).symm⟩)
        · cases h
      · next hs =>
        obtain ⟨x, hx, hw⟩ := Option.map_eq_some_iff.mp h
        exact .inr (.inr (.inl ⟨t, i, g, x, rfl, hg, by simpa using hs, hx, hw.symm⟩))
  | release => exact .inr (.inr (.inr ⟨rfl, (Option.some.inj h).symm⟩))

theorem Locked.step (h : Locked w) {e : CallEvent} (hs : w.step cfg sid e = some w') :
    Locked w' := by
  rcases step_cases hs with ⟨a, -, -, rfl⟩ | ⟨t, g, -, hg, -, hl, rfl⟩ |
    ⟨t, i, g, x, -, hg, hw, -, rfl⟩ | ⟨-, rfl⟩
  · exact h.begin a
  · exact h.acquire hg hl
  · exact h.after hg hw x
  · exact ⟨h.holder, fun t g hg => Nat.le_succ_of_le (h.lock t g hg), h.begun,
      fun l hl => h.unmade l (Nat.lt_of_succ_lt hl), h.returned⟩

/-! ## 5. The later calls alone -/

/-- A call begun before the last release does not act any more. -/
def heedsRelease (cfg : ProviderConfig) (sid : String) (w : StreamCalls) (e : CallEvent)
    (_ : StreamCalls) : Bool :=
  match e with
  | .resume t i =>
    match w.calls t with
    | none => true
    | some g => g.lock = w.releases || !w.provider.actsLate cfg sid g i
  | _ => true

/-- The stream without the calls under way. -/
def alone (w : StreamCalls) : StreamCalls :=
  { w with calls := fun _ => none, holders := fun _ => none, returned := [] }

/-- `v` is `w` without what the calls before call `n` left there. -/
structure AloneFrom (n : Nat) (w v : StreamCalls) : Prop where
  provider : Same w.provider v.provider
  releases : v.releases = w.releases
  started : v.started = w.started
  calls : ∀ t, v.calls t = if n ≤ t then w.calls t else none
  holders : v.holders w.releases = w.holders w.releases
  returned : v.returned = w.returned.filter fun r => n ≤ r.1
  /-- the calls from `n` on are those the last release did not interrupt -/
  from_iff : ∀ t g, w.calls t = some g → (n ≤ t ↔ g.lock = w.releases)
  le : n ≤ w.started

/-- Right behind a release every call under way is an earlier one. -/
theorem AloneFrom.release (h : Locked w) :
    AloneFrom w.started (w.release sid) (w.release sid).alone where
  provider := .refl _
  releases := rfl
  started := rfl
  calls := fun t => by
    split
    · next ht => exact (h.begun t ht).symm
    · rfl
  holders := (h.unmade _ (Nat.lt_succ_self _)).symm
  returned := by
    refine (List.filter_eq_nil_iff.mpr fun r hr' => ?_).symm
    have hlt := h.returned r hr'
    simp only [decide_eq_true_eq]
    exact not_le.mpr hlt
  from_iff := fun t g hg => by
    have hlock := h.lock t g hg
    have hbegun : ¬ w.started ≤ t := fun ht => by
      have hn := h.begun t ht
      rw [show w.calls t = some g from hg] at hn
      cases hn
    exact ⟨fun ht => absurd ht hbegun, fun e => absurd hlock (by
      rw [e]
      exact Nat.not_succ_le_self _)⟩
  le := le_rfl

/-- Whatever an earlier call awaits, the calls from `n` on are the same. -/
theorem AloneFrom.calls_update {n : Nat} (h : AloneFrom n w v) (ht : ¬ n ≤ t)
    (call : Option Generation) (t' : Nat) :
    v.calls t' = if n ≤ t' then Function.update w.calls t call t' else none := by
  rw [h.calls, Function.update_apply]
  split
  · next hn =>
    rw [if_neg]
    rintro rfl
    exact ht hn
  · rfl

/-- A call that goes on keeps its lock. -/
theorem AloneFrom.from_update {n : Nat} (h : AloneFrom n w v) (hg : w.calls t = some g)
    (stage : Stage) {t' : Nat} {g' : Generation}
    (hg' : Function.update w.calls t (some { g with stage := stage }) t' = some g') :
    n ≤ t' ↔ g'.lock = w.releases := by
  rw [Function.update_apply] at hg'
  split at hg'
  · next e =>
    cases hg'
    rw [e]
    exact h.from_iff t g hg
  · exact h.from_iff t' g' hg'

/-- The others of a call that ended. -/
theorem AloneFrom.from_ended {n : Nat} (h : AloneFrom n w v) {t' : Nat} {g' : Generation}
    (hg' : Function.update w.calls t none t' = some g') : n ≤ t' ↔ g'.lock = w.releases := by
  rw [Function.update_apply] at hg'
  split at hg'
  · cases hg'
  · exact h.from_iff t' g' hg'

/-- What an earlier call does is not seen. -/
theorem AloneFrom.earlier {n : Nat} (h : AloneFrom n w v)
    {e : CallEvent} (hs : w.step cfg sid e = some w') (hp : heedsRelease cfg sid w e w' = true)
    (he : e.isFrom n = false) : AloneFrom n w' v := by
  rcases step_cases hs with ⟨a, rfl, -, -⟩ | ⟨t, g, rfl, hg, -, hfree, rfl⟩ |
    ⟨t, i, g, x, rfl, hg, hw, hx, rfl⟩ | ⟨rfl, -⟩
  · cases he
  · have ht : ¬ n ≤ t := of_decide_eq_false he
    have hold : g.lock ≠ w.releases := fun e => ht ((h.from_iff t g hg).mpr e)
    refine ⟨h.provider, h.releases, h.started, h.calls_update ht _, ?_, h.returned,
      fun _ _ => h.from_update hg _, h.le⟩
    simp only [StreamCalls.acquire, Function.update_apply]
    rw [if_neg (Ne.symm hold)]
    exact h.holders
  · have ht : ¬ n ≤ t := of_decide_eq_false he
    have hold : g.lock ≠ w.releases := fun e => ht ((h.from_iff t g hg).mpr e)
    have hlate : w.provider.actsLate cfg sid g i = false := by
      simp only [heedsRelease, hg, Bool.or_eq_true, decide_eq_true_eq, hold, false_or,
        Bool.not_eq_true'] at hp
      exact hp
    obtain ⟨next, q⟩ := x
    have hsame : Same q v.provider := (Provider.resume_inert hx hlate).symm.trans h.provider
    cases next with
    | awaits stage =>
      exact ⟨hsame, h.releases, h.started, h.calls_update ht _, h.holders, h.returned,
        fun _ _ => h.from_update hg _, h.le⟩
    | ended result =>
      refine ⟨hsame, h.releases, h.started, h.calls_update ht _, ?_, ?_,
        fun _ _ => h.from_ended, h.le⟩
      · simp only [StreamCalls.after, Function.update_apply]
        rw [if_neg (Ne.symm hold)]
        exact h.holders
      · simp only [StreamCalls.after, List.filter_append, List.filter_cons, List.filter_nil, ht,
          decide_false, Bool.false_eq_true, if_false, List.append_nil]
        exact h.returned
  · cases he

/-- The calls from `n` on, when one of them goes on. -/
theorem AloneFrom.calls_later {n : Nat} (h : AloneFrom n w v) (ht : n ≤ t)
    (call : Option Generation) (t' : Nat) :
    Function.update v.calls t call t' =
      if n ≤ t' then Function.update w.calls t call t' else none := by
  simp only [Function.update_apply, h.calls]
  split
  · next e => rw [e, if_pos ht]
  · rfl

/-- **What a later call does it does alone as well.** -/
theorem AloneFrom.later {n : Nat} (h : AloneFrom n w v) {e : CallEvent}
    (hs : w.step cfg sid e = some w') (he : e.isFrom n = true) (hrel : e ≠ .release) :
    ∃ v', v.step cfg sid e = some v' ∧ AloneFrom n w' v' := by
  -- a call numbered from `n` on waits for the lock of its release, which no earlier call holds
  rcases step_cases hs with ⟨a, rfl, ha, rfl⟩ | ⟨t, g, rfl, hg, hw, hfree, rfl⟩ |
    ⟨t, i, g, x, rfl, hg, hw, hx, rfl⟩ | ⟨rfl, -⟩
  · refine ⟨v.begin sid a, if_pos ha, ?_⟩
    unfold StreamCalls.begin
    split
    · refine ⟨h.provider, h.releases, congrArg (· + 1) h.started, h.calls, h.holders, ?_,
        h.from_iff, Nat.le_succ_of_le h.le⟩
      simp only [List.filter_append, List.filter_cons, List.filter_nil, h.le, decide_true, if_true,
        h.returned, h.started]
    · refine ⟨?_, h.releases, congrArg (· + 1) h.started, ?_, h.holders, h.returned, ?_,
        Nat.le_succ_of_le h.le⟩
      · exact (Same.sessionLock _ _).symm.trans (h.provider.trans (Same.sessionLock _ _))
      · simp only [h.started, h.releases]
        exact h.calls_later h.le _
      · intro t' g' hg'
        simp only [Function.update_apply] at hg'
        split at hg'
        · next e =>
          cases hg'
          rw [e]
          exact ⟨fun _ => rfl, fun _ => h.le⟩
        · exact h.from_iff t' g' hg'
  · have ht : n ≤ t := of_decide_eq_true he
    have hlock : g.lock = w.releases := (h.from_iff t g hg).mp ht
    have hvg : v.calls t = some g := by rw [h.calls, if_pos ht, hg]
    have hvfree : v.holders g.lock = none := by rw [hlock, h.holders, ← hlock, hfree]
    refine ⟨v.acquire t g, by simp only [StreamCalls.step, hvg, hw, if_true, hvfree], h.provider,
      h.releases, h.started, h.calls_later ht _, ?_, h.returned, fun _ _ => h.from_update hg _, h.le⟩
    simp only [StreamCalls.acquire, hlock, Function.update_self]
  · have ht : n ≤ t := of_decide_eq_true he
    have hlock : g.lock = w.releases := (h.from_iff t g hg).mp ht
    have hvg : v.calls t = some g := by rw [h.calls, if_pos ht, hg]
    obtain ⟨⟨next', q'⟩, hy, hout⟩ := h.provider.resume hx
    obtain ⟨next, q⟩ := x
    obtain ⟨rfl, hq⟩ := hout
    refine ⟨v.after t g (next', q'), by simp only [StreamCalls.step, hvg, hw, Bool.false_eq_true,
      if_false, hy, Option.map_some], ?_⟩
    cases next' with
    | awaits stage =>
      exact ⟨hq, h.releases, h.started, h.calls_later ht _, h.holders, h.returned,
        fun _ _ => h.from_update hg _, h.le⟩
    | ended result =>
      refine ⟨hq, h.releases, h.started, h.calls_later ht _, ?_, ?_, fun _ _ => h.from_ended, h.le⟩
      · simp only [StreamCalls.after, hlock, Function.update_self]
      · simp only [StreamCalls.after, List.filter_append, List.filter_cons, List.filter_nil, ht,
          decide_true, if_true, h.returned]
  · exact absurd rfl hrel

/-- **The run without the earlier calls** ends in the same provider. -/
theorem alone_exec {n : Nat} : ∀ {es : List CallEvent} {w w' v : StreamCalls},
    AloneFrom n w v → CallEvent.release ∉ es →
    exec (step cfg sid) (heedsRelease cfg sid) w es = some w' →
    ∃ v', exec (step cfg sid) (fun _ _ _ => true) v (es.filter (CallEvent.isFrom n)) = some v' ∧
      AloneFrom n w' v'
  | [], w, w', v, h, _, hr => by
      cases hr
      exact ⟨v, rfl, h⟩
  | e :: es, w, w', v, h, hrel, hr => by
      obtain ⟨w₁, hs, hp, hrest⟩ := exec_cons hr
      have hrel' : CallEvent.release ∉ es := fun hm => hrel (List.mem_cons_of_mem _ hm)
      cases he : e.isFrom n with
      | true =>
        obtain ⟨v₁, hv, h₁⟩ := h.later hs he fun e => hrel (e ▸ List.mem_cons_self)
        obtain ⟨v', hv', h'⟩ := alone_exec h₁ hrel' hrest
        refine ⟨v', ?_, h'⟩
        rw [List.filter_cons_of_pos he]
        exact exec_cons_eq hv rfl hv'
      | false =>
        obtain ⟨v', hv', h'⟩ := alone_exec (h.earlier hs hp he) hrel' hrest
        refine ⟨v', ?_, h'⟩
        rw [List.filter_cons_of_neg (by rw [he]; exact Bool.false_ne_true)]
        exact hv'

/-! ## 6. Releases that are final -/

/-- The last release is final in `w`, for steps that meet `ok`. -/
structure ReleaseFinal (cfg : ProviderConfig) (sid : String)
    (ok : StreamCalls → CallEvent → StreamCalls → Bool) (w : StreamCalls) : Prop where
  /-- a call begun before the last release changes no pin, no rejection and no stream -/
  interrupted : ∀ t g i w', w.calls t = some g → g.lock ≠ w.releases →
    w.step cfg sid (.resume t i) = some w' → ok w (.resume t i) w' = true →
    Same w.provider w'.provider
  /-- while a later call is between its lock and its return, no step of another one does -/
  serialized : ∀ t g e w', w.calls t = some g → g.lock = w.releases →
    g.stage.isWaiting = false → w.step cfg sid e = some w' → ok w e w' = true →
    e ≠ .release → (∀ i, e ≠ .resume t i) → Same w.provider w'.provider
  /-- what a release is followed by is what the calls begun after it do alone -/
  alone : ∀ es w', CallEvent.release ∉ es → exec (step cfg sid) ok (w.release sid) es = some w' →
    ∃ v, exec (step cfg sid) (fun _ _ _ => true) (w.release sid).alone
        (es.filter (CallEvent.isFrom w.started)) = some v ∧
      Same w'.provider v.provider ∧ v.returned = w'.returned.filter fun r => w.started ≤ r.1

/-- A call the last release interrupted, when it goes on. -/
theorem interrupted_same {i : Awaited} (hg : w.calls t = some g) (hold : g.lock ≠ w.releases)
    (hs : w.step cfg sid (.resume t i) = some w')
    (hp : heedsRelease cfg sid w (.resume t i) w' = true) : Same w.provider w'.provider := by
  rcases step_cases hs with ⟨a, he, -, -⟩ | ⟨t', g', he, -, -, -, rfl⟩ |
    ⟨t', i', g', x, he, hg', -, hx, rfl⟩ | ⟨he, -⟩
  · cases he
  · exact .refl _
  · cases he
    rw [hg] at hg'
    cases hg'
    have hlate : w.provider.actsLate cfg sid g i = false := by
      simp only [heedsRelease, hg, Bool.or_eq_true, decide_eq_true_eq, hold, false_or,
        Bool.not_eq_true'] at hp
      exact hp
    obtain ⟨next, q⟩ := x
    have hsame := Provider.resume_inert hx hlate
    cases next <;> exact hsame
  · cases he

/-- The others, while a call of the last release is behind the lock. -/
theorem serialized_same (hl : Locked w) {e : CallEvent} (hg : w.calls t = some g)
    (hlock : g.lock = w.releases) (hw : g.stage.isWaiting = false)
    (hs : w.step cfg sid e = some w') (hp : heedsRelease cfg sid w e w' = true)
    (hrel : e ≠ .release) (he : ∀ i, e ≠ .resume t i) : Same w.provider w'.provider := by
  rcases step_cases hs with ⟨a, rfl, -, rfl⟩ | ⟨t', g', rfl, -, -, -, rfl⟩ |
    ⟨t', i', g', x, rfl, hg', hw', -, -⟩ | ⟨rfl, -⟩
  · unfold StreamCalls.begin
    split
    · exact .refl _
    · exact .sessionLock _ _
  · exact .refl _
  · refine interrupted_same hg' (fun e => ?_) hs hp
    have hh := hl.holder t g hg hw
    rw [hlock, ← e, hl.holder t' g' hg' hw'] at hh
    exact he i' (by rw [Option.some.inj hh])
  · exact absurd rfl hrel

/-- **A release is final where no call begun before it acts behind it.** In such a run, at every
    moment: interrupted calls leave everything as it is, the later ones act one after the other,
    and what a release is followed by is the run of the calls made after it alone. -/
theorem releaseFinal_of_heeds (cfg : ProviderConfig) (sid : String) (p : Provider)
    {es : List CallEvent} {w : StreamCalls}
    (h : exec (step cfg sid) (heedsRelease cfg sid) (.start p) es = some w) :
    ReleaseFinal cfg sid (heedsRelease cfg sid) w := by
  have hl : Locked w := Steps.inv (exec_steps h) (.start p) fun _ _ _ hw hs _ => hw.step hs
  refine ⟨fun t g i w' hg hold hs hp => interrupted_same hg hold hs hp,
    fun t g e w' hg hlock hw hs hp hrel he => serialized_same hl hg hlock hw hs hp hrel he,
    fun es w' hrel hr => ?_⟩
  obtain ⟨v, hv, hout⟩ := alone_exec (AloneFrom.release hl) hrel hr
  exact ⟨v, hv, hout.provider, hout.returned⟩

/-! ## 7. A call that comes back to a stream pinned again -/

/-- An engine that samples the token 5. -/
def sampledFive : EngineAnswer :=
  .answered "" "m" none (.obj [("output_ids", .arr [.int 5]),
    ("meta_info", .obj [("finish_reason", .obj [("type", .str "stop")]),
      ("output_token_logprobs", .arr [.arr [.int (-1), .int 5]])])])

/-- Call 0 up to its engine, a release, call 1 up to its pin, and the answer to call 0. -/
def lateAnswer : List CallEvent :=
  [.begin repeatedArgs, .resume 0 .nothing, .resume 0 .nothing, .resume 0 .nothing,
    .resume 0 .nothing, .resume 0 (.replays 0), .resume 0 .nothing, .resume 0 .nothing, .release,
    .begin repeatedArgs, .resume 1 .nothing, .resume 1 .nothing, .resume 1 .nothing,
    .resume 0 (.answer sampledFive)]

/-- Without the interrupted call's commit the condition holds, and the run has two calls. -/
theorem releaseFinal_lateAnswer :
    ∃ w, exec (step silentConfig "s-a") (heedsRelease silentConfig "s-a") (.start .empty)
        lateAnswer = some w ∧
      ReleaseFinal silentConfig "s-a" (heedsRelease silentConfig "s-a") w := by
  have hrun : (exec (step silentConfig "s-a") (heedsRelease silentConfig "s-a") (.start .empty)
      lateAnswer).isSome = true := by decide +kernel
  obtain ⟨w, hw⟩ := Option.isSome_iff_exists.mp hrun
  exact ⟨w, hw, releaseFinal_of_heeds _ _ _ hw⟩

/-- The state of a run's stream, seen as whether a turn is committed there. -/
def committedAfter (es : List CallEvent) : Option Bool :=
  (exec (step silentConfig "s-a") (fun _ _ _ => true) (.start .empty) es).map fun w =>
    (w.provider.streamState "m" "s-a").isSome

/-- The call comes back from the engine and commits, though its stream was released. -/
theorem lateAnswer_commits :
    ¬∀ w, exec (step silentConfig "s-a") (fun _ _ _ => true) (.start .empty) lateAnswer = some w →
      ReleaseFinal silentConfig "s-a" (fun _ _ _ => true) w := by
  intro hall
  have hbefore : committedAfter lateAnswer = some false := by decide +kernel
  have hafter : committedAfter (lateAnswer ++ [.resume 0 .nothing]) = some true := by decide +kernel
  unfold committedAfter at hbefore hafter
  obtain ⟨w', hw', hc'⟩ := Option.map_eq_some_iff.mp hafter
  obtain ⟨w, hw, hlast⟩ := exec_append hw'
  obtain ⟨u, hu, -, hend⟩ := exec_cons hlast
  cases hend
  rw [hw] at hbefore
  simp only [Option.map_some, Option.some.injEq] at hbefore
  have hold : (exec (step silentConfig "s-a") (fun _ _ _ => true) (.start .empty) lateAnswer).map
      (fun w => (w.calls 0).map (·.lock)) = some (some 0) := by decide +kernel
  have hreleases : (exec (step silentConfig "s-a") (fun _ _ _ => true) (.start .empty)
      lateAnswer).map (·.releases) = some 1 := by decide +kernel
  rw [hw] at hold hreleases
  have hone : w.releases = 1 := Option.some.inj hreleases
  obtain ⟨g, hg, hlock⟩ := Option.map_eq_some_iff.mp (Option.some.inj hold)
  have hsame := (hall w hw).interrupted 0 g .nothing w' hg (by rw [hlock, hone]; decide) hu rfl
  rw [show w'.provider.streamState "m" "s-a" = w.provider.streamState "m" "s-a" from
    congrArg (fun m : TokenStreamManager => m.sessions.get? "s-a") (hsame.manager "m"),
    hbefore] at hc'
  cases hc'

end StreamCalls

end RolloutProxy
