/-
  File:      RolloutProxy/Recorder/Growth.lean
  Subject:   A RECORD GROWS: no operation takes a turn from a live session, and a delivery that
             succeeds is in the record.

  * `Holds`: the record has a turn of the agent with this completion;
  * `recordCompletion_holds`: a delivery that raised nothing is held;
  * `Holds.recorded`, `Holds.of_turns`: what is held stays;
  * `recordCompletion_failedTurn`, `markRecordingFailed_failedTurn`: an agent's unresolved failure
    stays until its turn is held.
-/
import RolloutProxy.Recorder.Atomic
import RolloutProxy.Recorder.Tombstones

namespace RolloutProxy

/-! ## 1. Turns -/

/-- A delivery that is skipped as a duplicate is the agent's last turn. -/
theorem placeTurn_duplicate {turns : List CompletionRecord} {d : Delivery}
    (h : placeTurn turns d = .ok .duplicate) :
    ∃ last ∈ turns, last.completionTokenIds = d.tokenIds := by
  unfold placeTurn at h
  cases hlast : turns.getLast? with
  | none =>
    rw [hlast] at h
    split at h
    · cases h
    · cases h
  | some last =>
    refine ⟨last, List.mem_of_getLast? hlast, ?_⟩
    rw [hlast] at h
    split at h
    · have hp : placeContinuation turns last d = .duplicate := Except.ok.inj h
      unfold placeContinuation at hp
      simp only at hp
      split at hp
      · next hc => exact hc.2.1.symm
      · split at hp <;> cases hp
    · unfold placeOpening at h
      simp only at h
      split at h
      · cases hn : normalizeAlike d.messages last.requestMessages with
        | error e =>
          rw [hn] at h
          cases h
        | ok same =>
          rw [hn] at h
          change (if same ∧ d.tokenIds = last.completionTokenIds ∧
            d.promptTokenIds = last.promptTokenIds then Except.ok Placement.duplicate
              else Except.ok (.turn true d.messages d.promptTokenIds)) = _ at h
          split at h
          · next hc => exact hc.2.1.symm
          · cases h
      · cases h

namespace SessionRecorder

variable {r r' : SessionRecorder} {now : Rat} {sid s : String} {agent : String} {ids : List Int}

/-- The record has a turn of the agent with this completion. -/
def Holds (r : SessionRecorder) (s agent : String) (ids : List Int) : Prop :=
  ∃ turn ∈ r.recordedTurns s (some agent), turn.completionTokenIds = ids

theorem afterPlacement_mem {turns : List CompletionRecord} {d : Delivery} (p : Placement)
    {turn : CompletionRecord} (h : turn ∈ turns) : turn ∈ afterPlacement turns d p := by
  cases p with
  | duplicate => exact h
  | turn new messages promptIds => exact List.mem_append_left _ h

theorem Holds.of_turns (h : r.Holds s agent ids)
    (ht : (r'.sessionFor s).turns = (r.sessionFor s).turns) : r'.Holds s agent ids := by
  unfold Holds recordedTurns at h ⊢
  rw [ht]
  exact h

/-- **A recording takes no turn away.** -/
theorem Holds.recorded (h : r.Holds s agent ids) (d : Delivery) (fault : Option RecordFault) :
    (r.recordCompletion now sid d fault).2.Holds s agent ids := by
  obtain ⟨turn, hmem, hids⟩ := h
  refine ⟨turn, ?_, hids⟩
  rw [recordCompletion_recordedTurns]
  split
  · next hk =>
    rw [hk.1, hk.2] at hmem
    split
    · exact hmem
    · exact afterPlacement_mem _ hmem
  · exact hmem

/-- **A delivery that succeeds is in the record**, appended or there already. -/
theorem recordCompletion_holds {d : Delivery} {fault : Option RecordFault}
    (ht : r.tombstoned now sid = false) (ha : d.agentId = some agent)
    (h : (r.recordCompletion now sid d fault).1 = .ok ()) :
    (r.recordCompletion now sid d fault).2.Holds sid agent d.tokenIds := by
  have hearly : fault ≠ some .early := by
    intro he
    unfold recordCompletion at h
    rw [if_pos he] at h
    cases h
  have hrun := h
  rw [recordCompletion_eq r hearly ht] at hrun
  split at hrun
  · cases hrun
  · cases hrun
  · next repairs p hr hp =>
    cases p with
    | duplicate =>
      obtain ⟨last, hmem, hids⟩ := placeTurn_duplicate hp
      rw [ha] at hmem
      exact Holds.recorded ⟨last, hmem, hids⟩ d fault
    | turn new messages promptIds =>
      have hconstruct : fault ≠ some .construct := by
        intro hc
        unfold carryOut at hrun
        simp only [if_pos hc] at hrun
        cases hrun
      have hland : r.landing now sid d fault = some (.turn new messages promptIds) := by
        unfold landing
        rw [if_neg (by simp [hearly, hconstruct, ht]), hr, hp]
      refine ⟨d.toRecord new messages promptIds, ?_, rfl⟩
      rw [recordCompletion_recordedTurns, if_pos ⟨rfl, ha.symm⟩, hland]
      exact List.mem_append_right _ (List.mem_singleton_self _)

/-- Ensuring a session sets at most its model. -/
theorem ensureSession_sessionFor (r : SessionRecorder) (now : Rat) (sid : String)
    (model : Option String) (s : String) :
    ∃ name, (r.ensureSession now sid model).sessionFor s =
      { r.sessionFor s with modelName := name } := by
  unfold ensureSession
  split
  · exact ⟨_, rfl⟩
  · split
    · next hnone =>
      unfold sessionFor
      simp only [Dict.get?_set]
      by_cases hs : s = sid
      · rw [if_pos hs, hs, hnone]
        exact ⟨model, rfl⟩
      · rw [if_neg hs]
        exact ⟨_, rfl⟩
    · next x hx =>
      split
      · split
        · exact ⟨_, rfl⟩
        · unfold sessionFor
          simp only [Dict.get?_set]
          by_cases hs : s = sid
          · rw [if_pos hs, hs, hx]
            exact ⟨_, rfl⟩
          · rw [if_neg hs]
            exact ⟨_, rfl⟩
      · exact ⟨_, rfl⟩

theorem ensureSession_turns (r : SessionRecorder) (now : Rat) (sid : String)
    (model : Option String) (s : String) :
    ((r.ensureSession now sid model).sessionFor s).turns = (r.sessionFor s).turns := by
  obtain ⟨name, h⟩ := r.ensureSession_sessionFor now sid model s
  rw [h]

theorem finalizeSession_turns (h : r.finalizeSession sid = .ok r') (s : String) :
    (r'.sessionFor s).turns = (r.sessionFor s).turns := by
  obtain ⟨x, hx, -, rfl⟩ := finalizeSession_ok h
  rw [sessionFor_putSession]
  split
  · next hs =>
    rw [hs]
    unfold sessionFor
    rw [hx]
    rfl
  · rfl

theorem deleteSession_get? (r : SessionRecorder) (now : Rat) {s sid : String} (hs : s ≠ sid) :
    (r.deleteSession now sid).sessions.get? s = r.sessions.get? s ∧
      (r.deleteSession now sid).recordingFailed.get? s = r.recordingFailed.get? s :=
  ⟨Dict.get?_erase_ne _ hs, Dict.get?_erase_ne _ hs⟩

theorem markRecordingFailed_sessions (r : SessionRecorder) (now : Rat) (sid : String)
    (agent : Option String) (messages : List Fields) (promptIds ids : List Int) :
    (r.markRecordingFailed now sid agent messages promptIds ids).2.sessions = r.sessions := by
  unfold markRecordingFailed
  split
  · rfl
  · simp only
    split
    · rfl
    · split <;> rfl

/-! ## 2. The seal -/

theorem ensureSession_completed (r : SessionRecorder) (now : Rat) (sid : String)
    (model : Option String) (s : String) :
    ((r.ensureSession now sid model).sessionFor s).completed = (r.sessionFor s).completed := by
  obtain ⟨name, h⟩ := r.ensureSession_sessionFor now sid model s
  rw [h]

theorem putSession_completed {x : SessionRecord}
    (hx : x.completed = (r.sessionFor sid).completed) (s : String) :
    ((r.putSession sid x).sessionFor s).completed = (r.sessionFor s).completed := by
  rw [sessionFor_putSession]
  split
  · next hs => rw [hx, hs]
  · rfl

theorem recordCompletion_completed (r : SessionRecorder) (now : Rat) (sid : String) (d : Delivery)
    (fault : Option RecordFault) (s : String) :
    ((r.recordCompletion now sid d fault).2.sessionFor s).completed =
      (r.sessionFor s).completed := by
  unfold recordCompletion
  split
  · rfl
  split
  · rfl
  simp only
  have hput : ((r.putSession sid (r.sessionFor sid)).sessionFor s).completed =
      (r.sessionFor s).completed := putSession_completed rfl s
  split
  · exact hput
  · exact hput
  · next repairs p _ _ =>
    cases p with
    | duplicate =>
      simp only [carryOut]
      rw [sessionFor_congr (resolve_sessions _ _ _ _)]
      exact hput
    | turn new messages promptIds =>
      have hself : ((r.putSession sid (r.sessionFor sid)).sessionFor sid).completed =
          (r.sessionFor sid).completed := by
        rw [sessionFor_putSession, if_pos rfl]
      simp only [carryOut]
      split
      · exact (putSession_completed (by exact hself.symm) s).trans hput
      · rw [sessionFor_congr (resolve_sessions _ _ _ _)]
        exact (putSession_completed (by exact hself.symm) s).trans hput

/-- The operations on another session, and its seal, leave a session as it is. -/
theorem finalizeSession_others (h : r.finalizeSession sid = .ok r') (hs : s ≠ sid) :
    r'.sessions.get? s = r.sessions.get? s ∧
      r'.recordingFailed.get? s = r.recordingFailed.get? s := by
  obtain ⟨x, -, -, rfl⟩ := finalizeSession_ok h
  exact ⟨by rw [putSession_get?, if_neg hs], rfl⟩

theorem finalizeSession_sealed (h : r.finalizeSession sid = .ok r') :
    (∃ x, r'.sessions.get? sid = some x ∧ x.completed = true) ∧
      r'.recordingFailed.get? sid = none := by
  obtain ⟨x, -, hf, rfl⟩ := finalizeSession_ok h
  exact ⟨⟨{ x with completed := true }, by rw [putSession_get?, if_pos rfl], rfl⟩, hf⟩

/-! ## 3. Unresolved failures -/

/-- What repairs a failure is the failed turn. -/
theorem repairsFailure_true {failed : FailedTurn} {n : Nat} {d : Delivery}
    (h : repairsFailure (some failed) n d = .ok true) : d.tokenIds = failed.tokenIds := by
  unfold repairsFailure at h
  simp only at h
  split at h
  · next hc => exact hc.2.2
  · cases h

theorem ensureSession_failures (r : SessionRecorder) (now : Rat) (sid : String)
    (model : Option String) :
    (r.ensureSession now sid model).recordingFailed = r.recordingFailed := by
  unfold ensureSession
  split
  · rfl
  · split
    · rfl
    · split
      · split <;> rfl
      · rfl

/-- Clearing the failure of one agent leaves the others. -/
theorem clearRecordingFailure_failedTurn (r : SessionRecorder) {a b : Option String}
    (h : ¬ (s = sid ∧ b = a)) :
    (r.clearRecordingFailure sid a).failedTurn s b = r.failedTurn s b := by
  by_cases hs : s = sid
  · subst hs
    have hb : b ≠ a := fun he => h ⟨rfl, he⟩
    unfold clearRecordingFailure
    split
    · rfl
    · next failures hf =>
      simp only [failedTurn, hf, Option.bind_some]
      have hrest := Dict.get?_erase_ne failures hb
      split
      · next hempty =>
        -- nothing is left, so there was no failure of the other agent
        rw [Dict.get?_erase_self, Option.bind_none, ← hrest]
        exact ((Dict.get?_eq_none_iff _ b).mpr (by
          rw [Dict.keys, List.isEmpty_iff.mp hempty]
          exact List.not_mem_nil)).symm
      · rw [Dict.get?_set_self, Option.bind_some, hrest]
  · unfold failedTurn
    rw [r.clearRecordingFailure_failures a hs]

theorem carryOut_failedTurn (r : SessionRecorder) (x : SessionRecord) (d : Delivery)
    (fault : Option RecordFault) (repairs : Bool) (p : Placement) {b : Option String}
    (h : repairs = true → ¬ (s = sid ∧ b = d.agentId)) :
    (r.carryOut sid x d fault repairs p).2.failedTurn s b = r.failedTurn s b := by
  have hresolve : ∀ r : SessionRecorder,
      (r.resolve sid d.agentId repairs).failedTurn s b = r.failedTurn s b := by
    intro r
    unfold resolve
    split
    · next hr => exact r.clearRecordingFailure_failedTurn (h hr)
    · rfl
  cases p with
  | duplicate => exact hresolve r
  | turn new messages promptIds =>
    simp only [carryOut]
    split
    · rfl
    · exact hresolve _

/-- **A recording clears a failure only as it records the failed turn.** -/
theorem recordCompletion_failedTurn (r : SessionRecorder) (now : Rat) (sid : String) (d : Delivery)
    (fault : Option RecordFault) {failed : FailedTurn}
    (hf : r.failedTurn s (some agent) = some failed) :
    (r.recordCompletion now sid d fault).2.failedTurn s (some agent) = some failed ∨
      (r.recordCompletion now sid d fault).2.Holds s agent failed.tokenIds := by
  by_cases he : fault = some .early
  · refine .inl ?_
    unfold recordCompletion
    rw [if_pos he]
    exact hf
  cases ht : r.tombstoned now sid with
  | true =>
    refine .inl ?_
    unfold recordCompletion
    rw [if_neg he, if_pos ht]
    exact hf
  | false =>
    have hrun := r.recordCompletion_eq (d := d) he ht
    have hnone := r.recordCompletion_eq (d := d)
      (nofun : (none : Option RecordFault) ≠ some .early) ht
    cases hr : repairsFailure (r.failedTurn sid d.agentId)
        (r.recordedTurns sid d.agentId).length d with
    | error e =>
      rw [hrun, hr]
      exact .inl hf
    | ok repairs =>
      cases hp : placeTurn (r.recordedTurns sid d.agentId) d with
      | error e =>
        rw [hrun, hr, hp]
        exact .inl hf
      | ok p =>
        rw [hr, hp] at hrun hnone
        -- a failure is cleared by the delivery that repairs it, which is its own turn
        by_cases hown : repairs = true ∧ s = sid ∧ some agent = d.agentId
        · obtain ⟨rfl, rfl, ha⟩ := hown
          rw [← ha, hf] at hr
          rw [← repairsFailure_true hr]
          have hok : (r.recordCompletion now s d none).1 = .ok () := by
            rw [hnone]
            exact carryOut_none _ _ _ _ _ _
          have hholds := recordCompletion_holds ht ha.symm hok
          rw [hnone] at hholds
          cases p with
          | duplicate =>
            rw [hrun]
            exact .inr hholds
          | turn new messages promptIds =>
            by_cases hc : fault = some .construct
            · -- the record is refused before the failure is cleared
              refine .inl ?_
              rw [hrun]
              unfold carryOut
              simp only [if_pos hc]
              exact hf
            · refine .inr ?_
              rw [hrun]
              simp only
              rw [carryOut_turn _ hc]
              exact hholds
        · refine .inl ?_
          rw [hrun]
          exact (carryOut_failedTurn _ _ d fault repairs p fun hrep hkey =>
            hown ⟨hrep, hkey⟩).trans hf

/-- The first failure of an agent is kept. -/
theorem markRecordingFailed_failedTurn (r : SessionRecorder) (now : Rat) (sid : String)
    (a : Option String) (messages : List Fields) (promptIds ids : List Int) {failed : FailedTurn}
    (hf : r.failedTurn s (some agent) = some failed) :
    (r.markRecordingFailed now sid a messages promptIds ids).2.failedTurn s (some agent) =
      some failed := by
  by_cases hs : s = sid
  · subst hs
    obtain ⟨failures, hfailures, hget⟩ := Option.bind_eq_some_iff.mp hf
    unfold markRecordingFailed
    split
    · exact hf
    · simp only [hfailures, Option.getD_some]
      have hkept : ({ r with recordingFailed := r.recordingFailed.set s failures } :
          SessionRecorder).failedTurn s (some agent) = some failed := by
        simp only [failedTurn, Dict.get?_set_self, Option.bind_some, hget]
      split
      · exact hkept
      · next hnew =>
        have hne : some agent ≠ a := by
          rintro rfl
          rw [(Dict.contains_eq_false_iff _ _).mp (eq_false_of_ne_true hnew)] at hget
          cases hget
        split
        · exact hkept
        · simp only [failedTurn, Dict.get?_set_self, Option.bind_some, Dict.get?_set_ne _ _ hne, hget]
  · unfold failedTurn at hf ⊢
    rw [(r.markRecordingFailed_touches now sid a messages promptIds ids).failures s hs]
    exact hf

end SessionRecorder

end RolloutProxy
