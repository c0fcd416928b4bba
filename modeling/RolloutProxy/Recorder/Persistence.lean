/-
  File:      RolloutProxy/Recorder/Persistence.lean
  Subject:   DISK SNAPSHOTS AND ERROR LOGS: `SessionStore.save`, `_snapshot`, `_save`
             (recorder.py), `SessionErrorLogger.log` and the recording guard of the completion
             handler (service.py).

  A model string stands for a Python string, and `lone s` says that this string has a lone
  surrogate: a JSON request can hold one, `json.dumps(ensure_ascii=False)` writes it out as it is,
  and encoding it as UTF-8 raises `UnicodeEncodeError`. That is a `ValueError`, and every writer
  here catches `OSError` only.

  That `model_dump` and `json.dumps` serialize the session is assumed here: a snapshot that they
  refuse is an exception of `record_completion` itself (`RecordFault.late`, Atomic.lean) or is not
  written.
-/
import RolloutProxy.Recorder.Alignment
import RolloutProxy.Recorder.Dump

namespace RolloutProxy

/-! ## 1. One write -/

/-- What the disk does during one write; `false` is an `OSError`. -/
structure Disk where
  mkdir : Bool
  opened : Bool
  write : Bool
  replace : Bool

inductive WriteError where
  | os
  | unicodeEncode
  deriving DecidableEq

/-- `mkdir`, `open` and the write of a text; the text is encoded when it is written. -/
def Disk.writeText (disk : Disk) (encodable : Bool) : Except WriteError Unit :=
  if !disk.mkdir then .error .os
  else if !disk.opened then .error .os
  else if !encodable then .error .unicodeEncode
  else if !disk.write then .error .os
  else .ok ()

/-- `except OSError`: the error is logged, any other one passes on. -/
def exceptOs : Except WriteError Unit → Except PyError Unit
  | .error .unicodeEncode => .error (.other "surrogates not allowed")
  | _ => .ok ()

/-- The write of a text with a lone surrogate is reached. -/
def Disk.reached (disk : Disk) : Bool := disk.mkdir && disk.opened

theorem exceptOs_writeText (disk : Disk) (encodable : Bool) :
    exceptOs (disk.writeText encodable) = .ok () ↔ disk.reached = false ∨ encodable = true := by
  cases hm : disk.mkdir <;> cases ho : disk.opened <;> cases encodable <;> cases hw : disk.write <;>
    simp [Disk.writeText, Disk.reached, exceptOs, hm, ho, hw]

/-! ## 2. The texts -/

section Lone

variable (lone : String → Bool)

mutual
/-- A string or a key of the value has a lone surrogate. -/
def Json.hasLone : Json → Bool
  | .str s => lone s
  | .arr items => itemsHaveLone items
  | .obj fields => fieldsHaveLone fields
  | _ => false
def itemsHaveLone : List Json → Bool
  | [] => false
  | v :: vs => Json.hasLone v || itemsHaveLone vs
def fieldsHaveLone : List (String × Json) → Bool
  | [] => false
  | (k, v) :: rest => lone k || Json.hasLone v || fieldsHaveLone rest
end

end Lone

/-! ## 3. The session store -/

structure SessionStore where
  latestVersion : Dict String Nat

/-- `SessionStore.save`: `encodable` says that the payload has no lone surrogate. -/
def SessionStore.save (store : SessionStore) (sid : String) (encodable : Bool) (version : Nat)
    (disk : Disk) : Except PyError Unit × SessionStore :=
  if version < (store.latestVersion.get? sid).getD 0 then (.ok (), store) else
  let store := { store with latestVersion := store.latestVersion.set sid version }
  match disk.writeText encodable with
  | .error e => (exceptOs (.error e), store)
  | .ok () => (exceptOs (if disk.replace then .ok () else .error .os), store)

/-- `SessionErrorLogger.log`. -/
def errorLog (encodable : Bool) (disk : Disk) : Except PyError Unit :=
  exceptOs (disk.writeText encodable)

theorem SessionStore.save_ok_iff (store : SessionStore) (sid : String) (encodable : Bool)
    (version : Nat) (disk : Disk) :
    (store.save sid encodable version disk).1 = .ok () ↔
      version < (store.latestVersion.get? sid).getD 0 ∨ disk.reached = false ∨ encodable = true := by
  unfold save
  by_cases hv : version < (store.latestVersion.get? sid).getD 0
  · simp [hv]
  · rw [if_neg hv]
    have h := exceptOs_writeText disk encodable
    simp only [hv, false_or]
    cases hw : disk.writeText encodable with
    | ok u =>
        rw [hw] at h
        cases hr : disk.replace <;> simpa [exceptOs, hr] using h
    | error e =>
        rw [hw] at h
        simpa using h

/-! ## 4. The recorder with its store -/

structure PersistentRecorder where
  recorder : SessionRecorder
  store : Option SessionStore
  versions : Dict String Nat
  saveLogprobs : Bool
  saveRoutedExperts : Bool

/-- A turn as the snapshot shows it: without what is not saved, and without null parsed views. -/
def snapshotTurn (saveLogprobs : Bool) (t : CompletionRecord) : Fields :=
  t.modelDump.filter fun e =>
    !(e.1 == "completion_logprobs" && !saveLogprobs) &&
      !(["content", "reasoning_content", "tool_calls"].contains e.1 && e.2.isNull)

namespace PersistentRecorder

variable (lone : String → Bool) (p : PersistentRecorder)

/-- The value `_snapshot` serializes. -/
def snapshotData (s : SessionRecord) : Json :=
  .obj ([("session_id", .str s.sessionId), ("model_name", optStr s.modelName),
    ("turns", .arr (s.turns.map fun t => .obj (snapshotTurn p.saveLogprobs t)))] ++
    (if p.saveRoutedExperts && !s.routedExperts.entries.isEmpty then
      [("routed_experts", .obj (s.routedExperts.entries.map fun e => (e.1, .obj e.2.modelDump)))]
    else []) ++ [("completed", .bool s.completed)])

/-- `_snapshot` and `_save` of a session that was just changed. -/
def persist (sid : String) (disk : Disk) : Except PyError Unit × PersistentRecorder :=
  match p.store with
  | none => (.ok (), p)
  | some store =>
    let version := (p.versions.get? sid).getD 0 + 1
    let (result, store) := store.save sid
      (!Json.hasLone lone (p.snapshotData (p.recorder.sessionFor sid))) version disk
    (result, { p with store := some store, versions := p.versions.set sid version })

/-- `record_completion` of a delivery whose record is not refused. -/
def recordCompletion (now : Rat) (sid : String) (d : Delivery) (disk : Disk) :
    Except PyError Unit × PersistentRecorder :=
  let (result, recorder) := p.recorder.recordCompletion now sid d none
  let p' := { p with recorder := recorder }
  match result, p.recorder.landing now sid d none with
  | .ok (), some (.turn ..) => p'.persist lone sid disk
  | result, _ => (result, p')

/-- `finalize_session`. -/
def finalizeSession (sid : String) (disk : Disk) : Except PyError Unit × PersistentRecorder :=
  match p.recorder.finalizeSession sid with
  | .error e => (.error e, p)
  | .ok recorder => ({ p with recorder := recorder } : PersistentRecorder).persist lone sid disk

/-- The recording guard of the completion handler: the status of the answer. -/
def recordGuarded (now : Rat) (sid : String) (d : Delivery) (disk : Disk) :
    Nat × PersistentRecorder :=
  match p.recordCompletion lone now sid d disk with
  | (.ok (), p') => (200, p')
  | (.error _, p') =>
    (500, { p' with recorder := (p'.recorder.markRecordingFailed now sid d.agentId d.messages
      d.promptTokenIds d.tokenIds).2 })

/-- The snapshot of the record `s` is written, and has a lone surrogate in it. -/
def Unwritable (s : SessionRecord) (sid : String) (disk : Disk) : Prop :=
  ∃ store, p.store = some store ∧
    (store.latestVersion.get? sid).getD 0 ≤ (p.versions.get? sid).getD 0 + 1 ∧
    disk.reached = true ∧ Json.hasLone lone (p.snapshotData s) = true

theorem persist_ok_iff (recorder : SessionRecorder) (sid : String) (disk : Disk) :
    (({ p with recorder := recorder } : PersistentRecorder).persist lone sid disk).1 = .ok () ↔
      ¬ p.Unwritable lone (recorder.sessionFor sid) sid disk := by
  have hdata : ∀ s, ({ p with recorder := recorder } : PersistentRecorder).snapshotData s =
      p.snapshotData s := fun _ => rfl
  unfold persist Unwritable
  simp only [hdata]
  cases hs : p.store with
  | none => simp
  | some store =>
      simp only [SessionStore.save_ok_iff, Option.some.injEq]
      constructor
      · rintro h ⟨_, rfl, hv, hr, hl⟩
        rcases h with h | h | h
        · omega
        · rw [hr] at h; cases h
        · rw [hl] at h; cases h
      · intro h
        by_contra hc
        simp only [not_or, not_lt, Bool.not_eq_false, Bool.not_eq_true'] at hc
        exact h ⟨store, rfl, hc.1, hc.2.1, by simpa using hc.2.2⟩

/-- The record of a session with one more turn. -/
def withTurn (s : SessionRecord) (d : Delivery) (new : Bool) (messages : List Fields)
    (promptIds : List Int) : SessionRecord :=
  { s with
    routedExperts := routeTurn s.routedExperts d.agentId new d.routedExperts
    turns := s.turns ++ [d.toRecord new messages promptIds] }

/-- A placed delivery succeeds in memory. -/
theorem recordCompletion_landed {r : SessionRecorder} {now : Rat} {sid : String} {d : Delivery}
    {q : Placement} (h : r.landing now sid d none = some q) :
    (r.recordCompletion now sid d none).1 = .ok () ∧
      ∀ new messages promptIds, q = .turn new messages promptIds →
        (r.recordCompletion now sid d none).2.sessionFor sid =
          withTurn (r.sessionFor sid) d new messages promptIds := by
  unfold SessionRecorder.landing at h
  split at h
  · cases h
  · next hc =>
    simp only [reduceCtorEq, false_or, Bool.not_eq_true] at hc
    split at h
    · next repairs q' hr hp =>
      unfold SessionRecorder.recordCompletion
      simp only [reduceCtorEq, if_false, hc, Bool.false_eq_true, SessionRecorder.putSession_failedTurn]
      rw [show agentTurns (r.sessionFor sid).turns d.agentId = r.recordedTurns sid d.agentId from rfl,
        hr, hp]
      cases h
      cases q with
      | duplicate => exact ⟨rfl, nofun⟩
      | turn new messages promptIds =>
          refine ⟨rfl, ?_⟩
          rintro _ _ _ ⟨⟩
          unfold SessionRecorder.carryOut
          simp only [reduceCtorEq, if_false]
          rw [SessionRecorder.sessionFor_congr (SessionRecorder.resolve_sessions _ _ _ _),
            SessionRecorder.sessionFor_putSession, if_pos rfl]
          rfl
    · cases h

/-- A finalized session is complete. -/
theorem finalized_sessionFor {r r' : SessionRecorder} {sid : String}
    (h : r.finalizeSession sid = .ok r') :
    r'.sessionFor sid = { r.sessionFor sid with completed := true } := by
  unfold SessionRecorder.finalizeSession at h
  cases hs : r.sessions.get? sid with
  | none => rw [hs] at h; cases h
  | some s =>
      rw [hs] at h
      simp only at h
      split at h
      · cases h
      · cases h
        rw [SessionRecorder.sessionFor_putSession, if_pos rfl]
        simp [SessionRecorder.sessionFor, hs]

/-- **Persistence fails a turn exactly where it writes a lone surrogate.** Behind a delivery that
    was recognised as a duplicate, `record_completion` returns; behind an appended turn it returns
    exactly where the snapshot can be written or is not written at all, and so do the handler's
    guard, `finalize_session`, `SessionStore.save` and `SessionErrorLogger.log`. -/
theorem persistence_returns_iff (now : Rat) (sid : String) (d : Delivery) (disk : Disk) :
    (p.recorder.landing now sid d none = some .duplicate →
      (p.recordCompletion lone now sid d disk).1 = .ok () ∧
        (p.recordGuarded lone now sid d disk).1 = 200) ∧
    (∀ new messages promptIds,
      p.recorder.landing now sid d none = some (.turn new messages promptIds) →
      ((p.recordCompletion lone now sid d disk).1 = .ok () ↔
        ¬ p.Unwritable lone (withTurn (p.recorder.sessionFor sid) d new messages promptIds) sid
          disk) ∧
      ((p.recordGuarded lone now sid d disk).1 = 200 ↔
        ¬ p.Unwritable lone (withTurn (p.recorder.sessionFor sid) d new messages promptIds) sid
          disk)) ∧
    ((p.recorder.finalizeSession sid).isOk = true →
      ((p.finalizeSession lone sid disk).1 = .ok () ↔
        ¬ p.Unwritable lone { p.recorder.sessionFor sid with completed := true } sid disk)) ∧
    (∀ (store : SessionStore) (encodable : Bool) (version : Nat),
      (store.save sid encodable version disk).1 = .ok () ↔
        version < (store.latestVersion.get? sid).getD 0 ∨ disk.reached = false ∨
          encodable = true) ∧
    ∀ encodable : Bool, errorLog encodable disk = .ok () ↔ disk.reached = false ∨ encodable = true := by
  -- the handler answers 200 where the recording returned
  have guard : ∀ x : Except PyError Unit × PersistentRecorder,
      p.recordCompletion lone now sid d disk = x →
        ((p.recordGuarded lone now sid d disk).1 = 200 ↔ x.1 = .ok ()) := by
    rintro ⟨x, q⟩ hx
    unfold recordGuarded
    rw [hx]
    cases x with
    | ok u => simp
    | error e => simp
  refine ⟨fun hl => ?_, fun new messages promptIds hl => ?_, fun hr => ?_,
    fun store encodable version => store.save_ok_iff sid encodable version disk,
    fun encodable => exceptOs_writeText disk encodable⟩
  · have hok : (p.recordCompletion lone now sid d disk).1 = .ok () := by
      have := (recordCompletion_landed hl).1
      unfold recordCompletion
      simp only [this, hl]
    exact ⟨hok, (guard _ rfl).mpr hok⟩
  · have hiff : (p.recordCompletion lone now sid d disk).1 = .ok () ↔ ¬ p.Unwritable lone
        (withTurn (p.recorder.sessionFor sid) d new messages promptIds) sid disk := by
      obtain ⟨hok, hafter⟩ := recordCompletion_landed hl
      unfold recordCompletion
      simp only [hok, hl]
      rw [p.persist_ok_iff lone _ sid disk, hafter new messages promptIds rfl]
    exact ⟨hiff, (guard _ rfl).trans hiff⟩
  · unfold finalizeSession
    cases hf : p.recorder.finalizeSession sid with
    | error e => rw [hf] at hr; cases hr
    | ok recorder =>
        simp only
        rw [p.persist_ok_iff lone recorder sid disk, finalized_sessionFor hf]

end PersistentRecorder

/-! ## 5. A lone surrogate in a request -/

/-- A recorder that persists its sessions. -/
def storingRecorder : PersistentRecorder := ⟨.empty, some ⟨∅⟩, ∅, true, false⟩

/-- An opening with this user message. -/
def openingSaying (text : String) : Delivery where
  messages := [[("role", .str "user"), ("content", .str text)]]
  completionText := "text"
  tokenIds := [2]
  logprobs := [.finite 0]
  finishReason := some "stop"
  promptTokenIds := [1]
  agentId := some "a"
  content := some "text"
  reasoningContent := none
  toolCalls := none
  weightVersion := none
  routedExperts := .absent
  samplingParams := none

/-- A disk without errors. -/
def workingDisk : Disk := ⟨true, true, true, true⟩

/-- A recorder that has stored the opening "hi". -/
def storedHi : PersistentRecorder :=
  (storingRecorder.recordCompletion (fun s => s == "\\ud800") 0 "s" (openingSaying "hi")
    workingDisk).2

/-- A turn that is appended, its re-delivery and the finalization: none of them fails. -/
theorem persistence_returns_iff_hi :
    (storingRecorder.recordGuarded (fun s => s == "\\ud800") 0 "s" (openingSaying "hi")
        workingDisk).1 = 200 ∧
      (storedHi.recordGuarded (fun s => s == "\\ud800") 1 "s" (openingSaying "hi")
        workingDisk).1 = 200 ∧
      (storedHi.finalizeSession (fun s => s == "\\ud800") "s" workingDisk).1 = .ok () := by
  have written : ∀ (p : PersistentRecorder) (s : SessionRecord),
      Json.hasLone (fun s => s == "\\ud800") (p.snapshotData s) = false →
        ¬ p.Unwritable (fun s => s == "\\ud800") s "s" workingDisk := by
    intro p s hnone ⟨_, _, _, _, hlone⟩
    rw [hnone] at hlone
    cases hlone
  refine ⟨?_, ?_, ?_⟩
  · exact ((PersistentRecorder.persistence_returns_iff _ storingRecorder 0 "s" (openingSaying "hi")
      workingDisk).2.1 _ _ _ rfl).2.mpr (written _ _ (by decide +kernel))
  · exact ((PersistentRecorder.persistence_returns_iff _ storedHi 1 "s" (openingSaying "hi")
      workingDisk).1 rfl).2
  · exact ((PersistentRecorder.persistence_returns_iff _ storedHi 1 "s" (openingSaying "hi")
      workingDisk).2.2.1 (by decide +kernel)).mpr (written _ _ (by decide +kernel))

/-- **A request with a lone surrogate is answered 500 and marked**, though its turn is in the
    record and the disk works. -/
theorem lone_surrogate_fails_turn :
    ¬ ∀ (lone : String → Bool) (p : PersistentRecorder) (now : Rat) (sid : String) (d : Delivery)
      (disk : Disk), (p.recorder.landing now sid d none).isSome = true →
      (p.recordCompletion lone now sid d disk).1 = .ok () ∧
        (p.recordGuarded lone now sid d disk).1 = 200 := by
  intro hall
  obtain ⟨_, h⟩ := hall (fun s => s == "\\ud800") storingRecorder 0 "s" (openingSaying "\\ud800")
    workingDisk (by decide +kernel)
  exact absurd h (by decide +kernel)

end RolloutProxy
