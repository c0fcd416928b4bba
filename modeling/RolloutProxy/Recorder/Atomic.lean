/-
  File:      RolloutProxy/Recorder/Atomic.lean
  Subject:   WHAT A FAILED RECORDING LEAVES BEHIND: `record_completion` against "all as before, or
             all as after a successful recording".

  The routing coverage of the agent is cleared and merged before the record object is built, so an
  exception there leaves the coverage changed and the turn missing. `recordCompletion_atomic_iff`
  says that this is the only way out of step, and when it happens.
-/
import RolloutProxy.Recorder.Alignment

namespace RolloutProxy

/-! ## 1. The coverage of one agent -/

/-- The stored blob of an agent after a turn with this argument. -/
def coverageAfter (prev : Option RoutedExpertsBlob) (newConversation : Bool) (blob : BlobArg) :
    Option RoutedExpertsBlob :=
  let prev := if newConversation then none else prev
  match blob with
  | .blob b => (mergedBlob prev b).or prev
  | _ => prev

/-- **The routing update of a turn** touches its agent's blob, and only that. -/
theorem routeTurn_get? (experts : Dict String RoutedExpertsBlob) (a k : String) (new : Bool)
    (blob : BlobArg) :
    (routeTurn experts (some a) new blob).get? k =
      if k = a then coverageAfter (experts.get? a) new blob else experts.get? k := by
  by_cases hk : k = a
  · subst hk
    rw [if_pos rfl]
    have hget : (if new then experts.erase k else experts).get? k =
        if new then none else experts.get? k := by
      cases new <;> simp
    unfold routeTurn mergeRoutedExperts coverageAfter
    cases blob with
    | absent => simpa using hget
    | malformed => simpa using hget
    | blob b =>
        simp only [hget]
        cases hm : mergedBlob (if new then none else experts.get? k) b with
        | none => simpa using hget
        | some merged => simp
  · rw [if_neg hk]
    exact routeTurn_get?_ne fun e => hk (Option.some.inj e)

/-! ## 2. The record of a session -/

/-- The same turns, coverage and unresolved failures; a missing session counts as an empty one. -/
structure SameRecord (sid : String) (r r' : SessionRecorder) : Prop where
  turns : (r.sessionFor sid).turns = (r'.sessionFor sid).turns
  coverage : ∀ a, (r.sessionFor sid).routedExperts.get? a = (r'.sessionFor sid).routedExperts.get? a
  failures : r.recordingFailed.get? sid = r'.recordingFailed.get? sid

namespace SessionRecorder

variable (r : SessionRecorder)

/-- All as before the call, or all as after a recording that succeeds. -/
def Atomic (now : Rat) (sid : String) (d : Delivery) (fault : Option RecordFault) : Prop :=
  SameRecord sid (r.recordCompletion now sid d fault).2 r ∨
    ((r.recordCompletion now sid d none).1 = .ok () ∧
      SameRecord sid (r.recordCompletion now sid d fault).2 (r.recordCompletion now sid d none).2)

/-- The record of the turn is refused, and the turn changes its agent's coverage: it starts a new
    conversation over stored coverage, or its blob extends or supersedes the stored one. -/
def TearsCoverage (now : Rat) (sid : String) (d : Delivery) (fault : Option RecordFault) : Prop :=
  fault = some .construct ∧ r.tombstoned now sid = false ∧
    (∃ b, repairsFailure (r.failedTurn sid d.agentId) (r.recordedTurns sid d.agentId).length d =
      .ok b) ∧
    ∃ new messages promptIds a,
      placeTurn (r.recordedTurns sid d.agentId) d = .ok (.turn new messages promptIds) ∧
      d.agentId = some a ∧
      coverageAfter ((r.sessionFor sid).routedExperts.get? a) new d.routedExperts ≠
        (r.sessionFor sid).routedExperts.get? a

theorem sameRecord_putSession (sid : String) :
    SameRecord sid (r.putSession sid (r.sessionFor sid)) r := by
  refine ⟨?_, fun a => ?_, rfl⟩
  · rw [sessionFor_putSession, if_pos rfl]
  · rw [sessionFor_putSession, if_pos rfl]

/-- A refused record leaves the turns, and the coverage as it was routed. -/
theorem sameRecord_construct_iff (sid : String) (d : Delivery) (new : Bool) :
    SameRecord sid ((r.putSession sid (r.sessionFor sid)).putSession sid
        { r.sessionFor sid with
          routedExperts := routeTurn (r.sessionFor sid).routedExperts d.agentId new
            d.routedExperts }) r ↔
      ∀ a, d.agentId = some a →
        coverageAfter ((r.sessionFor sid).routedExperts.get? a) new d.routedExperts =
          (r.sessionFor sid).routedExperts.get? a := by
  constructor
  · intro h a ha
    have hc := h.coverage a
    rw [sessionFor_putSession, if_pos rfl] at hc
    simp only [ha, routeTurn_get?, if_true] at hc
    exact hc
  · intro h
    refine ⟨?_, fun k => ?_, rfl⟩
    · rw [sessionFor_putSession, if_pos rfl]
    · rw [sessionFor_putSession, if_pos rfl]
      cases ha : d.agentId with
      | none => rfl
      | some a =>
          simp only [routeTurn_get?]
          split
          · next hk => rw [h a ha, hk]
          · rfl

/-- A delivery behind its guards. -/
theorem recordCompletion_eq {now : Rat} {sid : String} {d : Delivery}
    {fault : Option RecordFault} (hf : fault ≠ some .early) (ht : r.tombstoned now sid = false) :
    r.recordCompletion now sid d fault =
      match repairsFailure (r.failedTurn sid d.agentId) (r.recordedTurns sid d.agentId).length d,
          placeTurn (r.recordedTurns sid d.agentId) d with
      | .error e, _ => (.error e, r.putSession sid (r.sessionFor sid))
      | .ok _, .error e => (.error e, r.putSession sid (r.sessionFor sid))
      | .ok repairs, .ok p =>
        (r.putSession sid (r.sessionFor sid)).carryOut sid (r.sessionFor sid) d fault repairs p := by
  unfold recordCompletion
  simp only [if_neg hf, ht, Bool.false_eq_true, if_false, putSession_failedTurn]
  rfl

/-- A turn that is appended: the recording succeeded, whatever the snapshot does. -/
theorem carryOut_turn {sid : String} {s : SessionRecord} {d : Delivery}
    {fault : Option RecordFault} (hf : fault ≠ some .construct) (repairs new : Bool)
    (messages : List Fields) (promptIds : List Int) :
    (r.carryOut sid s d fault repairs (.turn new messages promptIds)).2 =
      (r.carryOut sid s d none repairs (.turn new messages promptIds)).2 := by
  unfold carryOut
  simp only [if_neg hf, reduceCtorEq, if_false]

theorem carryOut_none (sid : String) (s : SessionRecord) (d : Delivery) (repairs : Bool)
    (p : Placement) : (r.carryOut sid s d none repairs p).1 = .ok () := by
  cases p <;> rfl

/-- **A recording is atomic in memory** unless the record is refused for a turn that changes its
    agent's coverage: then the coverage has moved and the turn is missing. -/
theorem recordCompletion_atomic_iff (now : Rat) (sid : String) (d : Delivery)
    (fault : Option RecordFault) :
    r.Atomic now sid d fault ↔ ¬ r.TearsCoverage now sid d fault := by
  have same : SameRecord sid r r := ⟨rfl, fun _ => rfl, rfl⟩
  by_cases he : fault = some .early
  · refine iff_of_true (.inl ?_) ?_
    · rw [show (r.recordCompletion now sid d fault).2 = r by unfold recordCompletion; rw [if_pos he]]
      exact same
    · rintro ⟨hc, _⟩
      rw [he] at hc
      cases hc
  cases ht : r.tombstoned now sid with
  | true =>
      refine iff_of_true (.inl ?_) ?_
      · rw [show (r.recordCompletion now sid d fault).2 = r by
          unfold recordCompletion
          rw [if_neg he, if_pos ht]]
        exact same
      · rintro ⟨_, hf, _⟩
        rw [ht] at hf
        cases hf
  | false =>
      have hnone := r.recordCompletion_eq (d := d) (nofun : (none : Option RecordFault) ≠ some .early) ht
      unfold Atomic
      rw [hnone, r.recordCompletion_eq he ht]
      cases hr : repairsFailure (r.failedTurn sid d.agentId)
          (r.recordedTurns sid d.agentId).length d with
      | error e =>
          refine iff_of_true (.inl (r.sameRecord_putSession sid)) ?_
          rintro ⟨_, _, ⟨b, hb⟩, _⟩
          rw [hr] at hb
          cases hb
      | ok repairs =>
          cases hp : placeTurn (r.recordedTurns sid d.agentId) d with
          | error e =>
              refine iff_of_true (.inl (r.sameRecord_putSession sid)) ?_
              rintro ⟨_, _, _, _, _, _, _, hb, _⟩
              rw [hp] at hb
              cases hb
          | ok p =>
              simp only
              cases p with
              | duplicate =>
                  refine iff_of_true (.inr ⟨rfl, ⟨rfl, fun _ => rfl, rfl⟩⟩) ?_
                  rintro ⟨_, _, _, _, _, _, _, hb, _⟩
                  rw [hp] at hb
                  cases hb
              | turn new messages promptIds =>
                  by_cases hc : fault = some .construct
                  · -- the coverage is routed, and no turn is appended
                    have hstate : ((r.putSession sid (r.sessionFor sid)).carryOut sid
                        (r.sessionFor sid) d fault repairs (.turn new messages promptIds)).2 =
                        (r.putSession sid (r.sessionFor sid)).putSession sid
                          { r.sessionFor sid with
                            routedExperts := routeTurn (r.sessionFor sid).routedExperts d.agentId
                              new d.routedExperts } := by
                      unfold carryOut
                      simp only [if_pos hc]
                    have hmore : ¬ SameRecord sid
                        ((r.putSession sid (r.sessionFor sid)).carryOut sid (r.sessionFor sid) d
                          fault repairs (.turn new messages promptIds)).2
                        ((r.putSession sid (r.sessionFor sid)).carryOut sid (r.sessionFor sid) d
                          none repairs (.turn new messages promptIds)).2 := by
                      intro h
                      have hl := congrArg List.length h.turns
                      rw [r.carryOut_turns, r.carryOut_turns, if_pos rfl, if_pos rfl, if_pos hc,
                        if_neg (by simp)] at hl
                      simp [afterPlacement] at hl
                    rw [hstate] at hmore ⊢
                    rw [or_iff_left fun h => hmore h.2, r.sameRecord_construct_iff]
                    constructor
                    · rintro h ⟨_, _, _, new', messages', ids', a, hb, ha, hne⟩
                      rw [hp] at hb
                      cases hb
                      exact hne (h a ha)
                    · intro h a ha
                      by_contra hne
                      exact h ⟨hc, ht, ⟨repairs, hr⟩, new, messages, promptIds, a, hp, ha, hne⟩
                  · refine iff_of_true (.inr ⟨carryOut_none _ _ _ _ _ _, ?_⟩) fun h => hc h.1
                    rw [carryOut_turn _ hc]
                    exact ⟨rfl, fun _ => rfl, rfl⟩

end SessionRecorder

/-! ## 3. A refused opening -/

/-- An agent with three rows of coverage. -/
def coveredRecorder : SessionRecorder :=
  SessionRecorder.empty.putSession "s" { SessionRecord.open "s" none with
    routedExperts := (∅ : Dict String RoutedExpertsBlob).set "a" ⟨"AAAA", 3, 0, 1, "uint8"⟩ }

/-- An opening without a routing blob. -/
def plainOpening : Delivery where
  messages := [[("role", .str "user"), ("content", .str "q")]]
  completionText := "text"
  tokenIds := [2]
  logprobs := [.finite 0]
  finishReason := some "stop"
  promptTokenIds := [1]
  agentId := some "a"
  content := some "text"
  reasoningContent := none
  toolCalls := none
  weightVersion := none
  routedExperts := .absent
  samplingParams := none

/-- **The coverage is gone and the turn is missing** where the record of an opening is refused. -/
theorem recordCompletion_tears_coverage :
    ¬ ∀ (r : SessionRecorder) (now : Rat) (sid : String) (d : Delivery)
      (fault : Option RecordFault), (∃ n, normalizeMessages d.messages = .ok n) →
      r.Atomic now sid d fault := by
  intro hall
  have h := hall coveredRecorder 0 "s" plainOpening (some .construct) ⟨_, rfl⟩
  rcases h with h | ⟨_, h⟩
  · have hc := congrArg Option.isSome (h.coverage "a")
    exact absurd hc (by decide +kernel)
  · have hl := congrArg List.length h.turns
    exact absurd hl (by decide +kernel)

end RolloutProxy
