/-
  File:      RolloutProxy/Service/Moves.lean
  Subject:   WHAT A PIECE OF A PIPELINE DOES to the server (`Moves`).

  * `TurnStage.held`: the lock object of the provider a pipeline holds in its stage;
  * `turnStep_moves`: a piece from one await to the next; `interruptTurn_interrupts`: a
    cancellation that arrives at an await.
-/
import RolloutProxy.Service.Server
import RolloutProxy.Service.Drain

namespace RolloutProxy

/-! ## 1. Stages -/

namespace TurnStage

def isEnded : TurnStage → Bool
  | .ended _ => true
  | _ => false

/-- The generation of a stage. -/
def generation : TurnStage → Option Generation
  | .generating g | .draining g => some g
  | _ => none

/-- The lock object of the provider that is held in this stage. -/
def held (s : TurnStage) : Option Nat :=
  match s.generation with
  | none => none
  | some g => if g.stage.isWaiting then none else some g.lock

/-- The engine is called for stream `x`. -/
def Own (x : String) (s : TurnStage) : Prop :=
  ∀ g, s.generation = some g → Provider.OwnCall x g.stage

theorem not_ended {s : TurnStage} {g : Generation} (h : s.generation = some g) :
    s.isEnded = false := by
  cases s <;> first | rfl | cases h

theorem held_generating {g : Generation} (h : g.stage.isWaiting = false) :
    (TurnStage.generating g).held = some g.lock := by
  simp [held, generation, h]

theorem held_draining {g : Generation} (h : g.stage.isWaiting = false) :
    (TurnStage.draining g).held = some g.lock := by
  simp [held, generation, h]

end TurnStage

theorem Stage.inThread_isWaiting {s : Stage} (h : s.inThread = true) : s.isWaiting = false := by
  cases s <;> first | rfl | cases h

/-- A piece of a generation leads to no wait for the lock. -/
theorem Provider.resume_isWaiting {cfg : ProviderConfig} {p q : Provider} {sid : String}
    {g : Generation} {i : Awaited} {s : Stage} (h : p.resume cfg sid g i = some (.awaits s, q)) :
    s.isWaiting = false := by
  cases s with
  | waiting =>
    unfold Provider.resume at h
    cases i with
    | nothing =>
      simp only at h
      split at h
      · cases h
      · unfold Provider.afterPin at h
        repeat' split at h
        all_goals cases h
      · cases h
      · cases h
      · unfold Provider.afterMiss at h
        repeat' split at h
        all_goals cases h
      · unfold Provider.afterBuild at h
        repeat' split at h
        all_goals cases h
      · unfold Provider.afterDecode at h
        repeat' split at h
        all_goals cases h
      · cases h
    | replays gone =>
      simp only at h
      split at h
      · unfold Provider.afterLookup at h
        repeat' split at h
        all_goals cases h
      · cases h
    | answer a =>
      simp only at h
      split at h
      · unfold Provider.afterAnswer at h
        repeat' split at h
        all_goals cases h
      · cases h
  | _ => rfl

/-! ## 2. The pieces of a pipeline -/

namespace LLMProxyServer

variable {cfg : ServerConfig} {w w' : LLMProxyServer} {n : Nat} {a : Admitted}
  {body : GenerateArgs} {stage : TurnStage}

/-- How a piece changes the holders of the provider's lock objects. -/
inductive Holders (h h' : String × Nat → Option Nat) (x : String) (n : Nat) (s s' : TurnStage) :
    Prop where
  | same (hs : s'.held = s.held) (he : h' = h)
  | taken (k : Nat) (hs : s.held = none) (hs' : s'.held = some k) (hf : h (x, k) = none)
      (he : h' = Function.update h (x, k) (some n))
  | left (k : Nat) (hs : s.held = some k) (hs' : s'.held = none)
      (he : h' = Function.update h (x, k) none)

/-- How a piece changes the threads: it starts the thread it goes on to wait for. -/
inductive Threads (h h' : ThreadId → Option Thread) (a : Admitted) (n : Nat) :
    TurnStage → Prop where
  | same (s : TurnStage) (hr : ∀ g parsed, s ≠ .recording g parsed) (hm : ∀ e, s ≠ .marking e)
      (he : h' = h) : Threads h h' a n s
  | record (g : Generated) (parsed : ParsedCompletion) (body : GenerateArgs)
      (he : h' = Function.update h (.record n)
        (some (.running (.record a.session (delivery a body g parsed))))) :
      Threads h h' a n (.recording g parsed)
  | mark (e : PyError) (messages : List Fields) (promptIds ids : List Int)
      (he : h' = Function.update h (.mark n)
        (some (.running (.mark a.session a.agent messages promptIds ids)))) :
      Threads h h' a n (.marking e)

/-- **What a piece of pipeline `n` changes**: its own stage, its own stream, its own thread. -/
structure Moves (w : LLMProxyServer) (n : Nat) (a : Admitted) (s s' : TurnStage)
    (w' : LLMProxyServer) : Prop where
  now : w'.now = w.now
  recorder : w'.recorder = w.recorder
  releases : w'.releases = w.releases
  bodies : w'.bodies = w.bodies
  answers : w'.answers = w.answers
  turns : w'.turns = Function.update w.turns n (some s')
  life : s'.isEnded = false ∧ w'.life = w.life ∨
    ∃ e answer, s' = .ended answer ∧ (e = .returned ↔ answer.isSome = true) ∧
      LifeStep w.life (.finish n e) w'.life
  /-- a pipeline that drains was draining, and waits for its thread -/
  draining : ∀ g, s' = .draining g → g.stage.isWaiting = false ∧ ∃ g₀, s = .draining g₀
  provider : ∀ x, x ≠ a.stream → w.provider.Absent x → w'.provider.Absent x
  own : s'.Own a.stream
  holders : Holders w.sessionHolders w'.sessionHolders a.stream n s s'
  threads : Threads w.threads w'.threads a n s'
  /-- a turn is answered behind its recording -/
  served : ∀ g parsed, s' = .ended (some (.served g parsed)) → s = .recording g parsed

theorem own_of_none {x : String} {s : TurnStage} (h : s.generation = none) : s.Own x := by
  intro g hg
  rw [h] at hg
  cases hg

/-- The pipeline ends, with the lock left that it held. -/
theorem moves_finish {p : Provider} {e : Ending} {answer : Option Answer}
    (he : e = .returned ↔ answer.isSome = true)
    (hans : ∀ g parsed, answer = some (.served g parsed) → stage = .recording g parsed)
    (hp : ∀ x, x ≠ a.stream → w.provider.Absent x → p.Absent x) {holders : String × Nat → Option Nat}
    (hh : Holders w.sessionHolders holders a.stream n stage (.ended answer))
    (h : ({ w with provider := p, sessionHolders := holders } : LLMProxyServer).finishTurn n e answer =
      some w') : w.Moves n a stage (.ended answer) w' := by
  unfold finishTurn at h
  obtain ⟨life, hl, rfl⟩ := Option.map_eq_some_iff.mp h
  exact
    { now := rfl
      recorder := rfl
      releases := rfl
      bodies := rfl
      answers := rfl
      turns := rfl
      life := .inr ⟨e, answer, rfl, he, step_life hl⟩
      draining := fun _ hg => by cases hg
      provider := hp
      own := own_of_none rfl
      holders := hh
      threads := .same _ (fun _ _ he => by cases he) (fun _ he => by cases he) rfl
      served := fun g parsed h => hans g parsed (TurnStage.ended.inj h) }

/-- Leaving the lock of a generation. -/
theorem leaveLock_eq (w : LLMProxyServer) (a : Admitted) (g : Generation) :
    w.leaveLock a g =
      { w with
        sessionHolders :=
          if g.stage.isWaiting then w.sessionHolders
          else Function.update w.sessionHolders (a.stream, g.lock) none } := by
  unfold leaveLock
  split <;> rfl

theorem holders_left {h : String × Nat → Option Nat} {x : String} {g : Generation}
    {s s' : TurnStage} (hs : s.generation = some g) (hs' : s'.generation = none) :
    Holders h (if g.stage.isWaiting then h else Function.update h (x, g.lock) none) x n s s' := by
  have hheld' : s'.held = none := by simp [TurnStage.held, hs']
  by_cases hw : g.stage.isWaiting = true
  · rw [if_pos hw]
    exact .same (by simp [TurnStage.held, hs, hs', hw]) rfl
  · rw [if_neg hw]
    exact .left g.lock (by simp [TurnStage.held, hs, hw]) hheld' rfl

/-- A piece of the provider leads on to another stage of the generation. -/
theorem moves_generation {p : Provider} {g : Generation} {s : Stage} {mk : Generation → TurnStage}
    (hmk : ∀ g, (mk g).generation = some g) (hstage : stage.generation = some g)
    (hw : g.stage.isWaiting = false) (hown : stage.Own a.stream) {i : Awaited}
    (hdrain : ∀ g', mk g' = .draining g' → ∃ g₀, stage = .draining g₀)
    (h : w.provider.resume cfg.provider a.stream g i = some (.awaits s, p)) :
    w.Moves n a stage (mk { g with stage := s })
      ({ w with provider := p }.setTurn n (mk { g with stage := s })) where
  now := rfl
  recorder := rfl
  releases := rfl
  bodies := rfl
  answers := rfl
  turns := rfl
  life := .inl ⟨TurnStage.not_ended (hmk _), rfl⟩
  draining g' hg' := by
    have hgen := hmk { g with stage := s }
    rw [hg'] at hgen
    cases hgen
    exact ⟨Provider.resume_isWaiting h, hdrain _ hg'⟩
  provider x hx hp := Provider.resume_absent hx (hown g hstage) h hp
  own := by
    intro g' hg'
    rw [hmk] at hg'
    cases hg'
    exact Provider.resume_ownCall (hown g hstage) h
  holders := by
    refine .same ?_ rfl
    simp only [TurnStage.held, hmk, hstage, hw, Provider.resume_isWaiting h]
  threads := by
    have hgen := hmk { g with stage := s }
    refine .same _ (fun _ _ he => ?_) (fun _ he => ?_) rfl <;> rw [he] at hgen <;> cases hgen
  served g' parsed he := by
    have hgen := hmk { g with stage := s }
    rw [he] at hgen
    cases hgen

theorem moves_drainThread {g : Generation} {mk : Generation → TurnStage}
    (hmk : ∀ g, (mk g).generation = some g) (hstage : stage.generation = some g)
    (hw : g.stage.isWaiting = false) (hown : stage.Own a.stream) {i : Awaited}
    (hdrain : ∀ g', mk g' = .draining g' → ∃ g₀, stage = .draining g₀)
    (h : w.drainThread cfg n a g mk i = some w') : ∃ s', w.Moves n a stage s' w' := by
  unfold drainThread at h
  cases hr : w.provider.resume cfg.provider a.stream g i with
  | none =>
    rw [hr] at h
    cases h
  | some out =>
    obtain ⟨next, p⟩ := out
    have hp : ∀ x, x ≠ a.stream → w.provider.Absent x → p.Absent x := fun x hx hx' =>
      Provider.resume_absent hx (hown g hstage) hr hx'
    have hfinish : ∀ {w'}, ({ w with provider := p }.leaveLock a g).finishTurn n .cancelled none =
        some w' → w.Moves n a stage (.ended none) w' := by
      intro w' hf
      rw [leaveLock_eq] at hf
      exact moves_finish (by simp) (fun _ _ h => by cases h) hp (holders_left hstage rfl) hf
    rw [hr] at h
    cases next with
    | awaits s =>
      simp only at h
      split at h
      · cases h
        exact ⟨_, moves_generation hmk hstage hw hown hdrain hr⟩
      · exact ⟨_, hfinish h⟩
    | ended result =>
      exact ⟨_, hfinish h⟩

theorem moves_beginTurn (h : w.beginTurn n a body = some w') :
    ∃ s', w.Moves n a .fresh s' w' := by
  unfold beginTurn at h
  split at h
  · exact ⟨_, moves_finish (by simp) (fun _ _ h => by cases h) (fun _ _ hx => hx) (.same rfl rfl) h⟩
  · split at h
    · exact ⟨_, moves_finish (by simp) (fun _ _ h => by cases h) (fun _ _ hx => hx)
        (.same rfl rfl) h⟩
    · cases h
      exact ⟨_,
        { now := rfl
          recorder := rfl
          releases := rfl
          bodies := rfl
          answers := rfl
          turns := rfl
          life := .inl ⟨rfl, rfl⟩
          draining := fun _ hg => by cases hg
          provider := fun x hx hp => Provider.sessionLock_absent hx hp
          own := fun g hg => by
            cases hg
            exact trivial
          holders := .same rfl rfl
          threads := .same _ (fun _ _ he => by cases he) (fun _ he => by cases he) rfl
          served := fun _ _ h => by cases h }⟩

/-- A turn that is recorded next. -/
theorem moves_startRecording {p : Provider} {holders : String × Nat → Option Nat}
    {g : Generated} {parsed : ParsedCompletion}
    (hp : ∀ x, x ≠ a.stream → w.provider.Absent x → p.Absent x)
    (hh : Holders w.sessionHolders holders a.stream n stage (.recording g parsed)) :
    w.Moves n a stage (.recording g parsed)
      (({ w with provider := p, sessionHolders := holders } : LLMProxyServer).startRecording n a body
        g parsed) where
  now := rfl
  recorder := rfl
  releases := rfl
  bodies := rfl
  answers := rfl
  turns := rfl
  life := .inl ⟨rfl, rfl⟩
  draining := fun _ hg => by cases hg
  provider := hp
  own := own_of_none rfl
  holders := hh
  threads := .record g parsed _ rfl
  served _ _ h := by cases h

/-- A turn whose loss is marked next. -/
theorem moves_startMarking {p : Provider} {holders : String × Nat → Option Nat} {g : Generated}
    {e : PyError} (hp : ∀ x, x ≠ a.stream → w.provider.Absent x → p.Absent x)
    (hh : Holders w.sessionHolders holders a.stream n stage (.marking e)) :
    w.Moves n a stage (.marking e)
      (({ w with provider := p, sessionHolders := holders } : LLMProxyServer).startMarking n a body g
        e) where
  now := rfl
  recorder := rfl
  releases := rfl
  bodies := rfl
  answers := rfl
  turns := rfl
  life := .inl ⟨rfl, rfl⟩
  draining := fun _ hg => by cases hg
  provider := hp
  own := own_of_none rfl
  holders := hh
  threads := .mark e _ _ _ rfl
  served _ _ h := by cases h

theorem moves_parseTurn {p : Provider} {holders : String × Nat → Option Nat} {g : Generated}
    (hp : ∀ x, x ≠ a.stream → w.provider.Absent x → p.Absent x)
    (hh : ∀ s', s'.generation = none → Holders w.sessionHolders holders a.stream n stage s') :
    ∃ s', w.Moves n a stage s'
      (({ w with provider := p, sessionHolders := holders } : LLMProxyServer).parseTurn cfg n a body
        g) := by
  unfold parseTurn
  split
  · exact ⟨_, moves_startMarking hp (hh _ rfl)⟩
  · exact ⟨_, moves_startRecording hp (hh _ rfl)⟩
  · next parser r turn _ =>
    exact ⟨.parsing parser r turn g,
      { now := rfl
        recorder := rfl
        releases := rfl
        bodies := rfl
        answers := rfl
        turns := rfl
        life := .inl ⟨rfl, rfl⟩
        draining := fun _ hg => by cases hg
        provider := hp
        own := own_of_none rfl
        holders := hh _ rfl
        threads := .same _ (fun _ _ he => by cases he) (fun _ he => by cases he) rfl
        served := fun _ _ h => by cases h }⟩

theorem moves_generateOn {g : Generation} {i : Awaited}
    (hown : (TurnStage.generating g).Own a.stream)
    (h : w.generateOn cfg n a body g i = some w') :
    ∃ s', w.Moves n a (.generating g) s' w' := by
  unfold generateOn at h
  split at h
  · next hwait =>
    split at h
    · next hfree =>
      cases h
      exact ⟨.generating { g with stage := .resolving },
        { now := rfl
          recorder := rfl
          releases := rfl
          bodies := rfl
          answers := rfl
          turns := rfl
          life := .inl ⟨rfl, rfl⟩
          draining := fun _ hg => by cases hg
          provider := fun _ _ hx => hx
          own := fun g' hg' => by
            cases hg'
            exact trivial
          holders := .taken g.lock (by simp [TurnStage.held, TurnStage.generation, hwait])
            (by simp [TurnStage.held, TurnStage.generation, Stage.isWaiting]) hfree rfl
          threads := .same _ (fun _ _ he => by cases he) (fun _ he => by cases he) rfl
          served := fun _ _ h => by cases h }⟩
    · cases h
  · next hwait =>
    have hw : g.stage.isWaiting = false := by simpa using hwait
    split at h
    · cases h
    · next s p hr =>
      cases h
      exact ⟨_, moves_generation (fun _ => rfl) rfl hw hown (fun _ h => by cases h) hr⟩
    · next e p hr =>
      rw [leaveLock_eq] at h
      exact ⟨_, moves_finish (by simp) (fun _ _ h => by cases h)
        (fun x hx hp => Provider.resume_absent hx (hown g rfl) hr hp)
        (holders_left rfl rfl) h⟩
    · next out p hr =>
      cases h
      rw [leaveLock_eq]
      exact moves_parseTurn (fun x hx hp => Provider.resume_absent hx (hown g rfl) hr hp)
        fun s' hs' => holders_left rfl hs'

/-- The stage behind a piece is not one of a cancelled pipeline, unless it was. -/
theorem moves_advance {i : TurnInput} (hown : stage.Own a.stream)
    (hdrain : ∀ g, stage = .draining g → g.stage.isWaiting = false)
    (h : w.advance cfg n a body stage i = some w') : ∃ s', w.Moves n a stage s' w' := by
  unfold advance at h
  split at h
  · exact moves_beginTurn h
  · exact moves_generateOn hown h
  · next g i =>
    exact moves_drainThread (fun _ => rfl) rfl (hdrain g rfl) hown (fun _ _ => ⟨g, rfl⟩) h
  · next parser r turn g callId =>
    split at h
    · next e p hf =>
      cases h
      exact ⟨_, moves_startMarking (fun x _ hx => Provider.finishParse_absent hx hf)
        (.same rfl rfl)⟩
    · next parsed p hf =>
      cases h
      exact ⟨_, moves_startRecording (fun x _ hx => Provider.finishParse_absent hx hf)
        (.same rfl rfl)⟩
  · split at h
    · exact ⟨_, moves_finish (by simp) (fun _ _ h => by cases h; rfl) (fun _ _ hx => hx)
        (.same rfl rfl) h⟩
    · cases h
      exact ⟨_, moves_startMarking (fun _ _ hx => hx) (.same rfl rfl)⟩
    · cases h
  · split at h
    · exact ⟨_, moves_finish (by simp) (fun _ _ h => by cases h) (fun _ _ hx => hx)
        (.same rfl rfl) h⟩
    · exact ⟨_, moves_finish (by simp) (fun _ _ h => by cases h) (fun _ _ hx => hx)
        (.same rfl rfl) h⟩
    · cases h
  · cases h

/-- Who a pipeline is. -/
structure Piece (w : LLMProxyServer) (n : Nat) (t : Task) (a : Admitted) (stage : TurnStage) :
    Prop where
  task : w.life.tasks (.turn n) = some t
  runs : t.done = false
  admitted : w.life.admitted n = some a
  turn : w.turns n = some stage

/-- **What a piece of a pipeline does**, where pipelines call for their own streams. -/
theorem turnStep_moves {i : TurnInput}
    (hown : ∀ a stage, w.life.admitted n = some a → w.turns n = some stage → stage.Own a.stream)
    (hdrain : ∀ g, w.turns n = some (.draining g) → g.stage.isWaiting = false)
    (h : w.turnStep cfg n i = some w') :
    ∃ t a stage s', w.Piece n t a stage ∧ w.Moves n a stage s' w' := by
  unfold turnStep at h
  split at h
  · next t a body stage ht ha hbody hstage =>
    obtain ⟨ht, hd⟩ := Lifecycle.running_some.mp ht
    have hpiece : w.Piece n t a stage := ⟨ht, hd, ha, hstage⟩
    have ho := hown a stage ha hstage
    suffices hm : ∃ s', w.Moves n a stage s' w' by
      obtain ⟨s', hm⟩ := hm
      exact ⟨t, a, stage, s', hpiece, hm⟩
    split at h
    · split at h
      · next g i =>
        split at h
        · next hin =>
          exact moves_drainThread (fun _ => rfl) rfl (Stage.inThread_isWaiting hin) ho
            (fun _ hg => by cases hg) h
        · cases h
      · next g i =>
        exact moves_drainThread (fun _ => rfl) rfl (hdrain g hstage) ho (fun _ _ => ⟨g, rfl⟩) h
      · cases h
    · exact moves_advance ho (fun g hg => hdrain g (hg ▸ hstage)) h
  · cases h

/-- A `CancelledError` in a pipeline: a state update goes on, everything else ends. -/
inductive Interrupts (w : LLMProxyServer) (n : Nat) (a : Admitted) (stage : TurnStage) :
    LLMProxyServer → Prop where
  | drains (g : Generation) (life : Lifecycle) (hs : stage = .generating g)
      (hw : g.stage.isWaiting = false) (hl : LifeStep w.life (.interrupt n) life) :
      Interrupts w n a stage ({ w with life := life }.setTurn n (.draining g))
  | ends (w' : LLMProxyServer) (hm : w.Moves n a stage (.ended none) w') : Interrupts w n a stage w'

/-- **What a cancellation does to a pipeline** that is cancelled for the first time: one that
    drains already would leave its thread behind. -/
theorem interruptTurn_interrupts
    (honce : ∀ t g, w.life.tasks (.turn n) = some t → t.due = true → w.turns n ≠ some (.draining g))
    (h : w.interruptTurn n = some w') :
    ∃ t a stage, w.Piece n t a stage ∧ t.due = true ∧ w.Interrupts n a stage w' := by
  unfold interruptTurn at h
  split at h
  · next t a stage ht ha hstage =>
    obtain ⟨ht, hd⟩ := Lifecycle.running_some.mp ht
    have hpiece : w.Piece n t a stage := ⟨ht, hd, ha, hstage⟩
    split at h
    · cases h
    · next hdue =>
      have hdue : t.due = true := by simpa using hdue
      suffices hm : w.Interrupts n a stage w' from ⟨t, a, stage, hpiece, hdue, hm⟩
      split at h
      · next g =>
        split at h
        · next hin =>
          obtain ⟨life, hl, rfl⟩ := Option.map_eq_some_iff.mp h
          exact .drains g life rfl (Stage.inThread_isWaiting hin) (step_life hl)
        · rw [leaveLock_eq] at h
          exact .ends w' (moves_finish (by simp) (fun _ _ h => by cases h) (fun _ _ hx => hx)
            (holders_left rfl rfl) h)
      · next g => exact absurd hstage (honce t g ht hdue)
      · next hg hdr =>
        have hheld : stage.held = none := by
          cases stage with
          | generating g => exact (hg g rfl).elim
          | draining g => exact (hdr g rfl).elim
          | _ => rfl
        exact .ends w' (moves_finish (by simp) (fun _ _ h => by cases h) (fun _ _ hx => hx)
          (.same hheld.symm rfl) h)
  · cases h

end LLMProxyServer

end RolloutProxy
