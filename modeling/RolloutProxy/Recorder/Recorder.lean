/-
  File:      RolloutProxy/Recorder/Recorder.lean
  Subject:   THE SESSION RECORDER (recorder.py): records, tombstones and unresolved recording
             failures, and its operations, each under the recorder's lock.

  * `placeTurn` decides what a delivery is: a duplicate of the agent's last turn, a turn stored in
    full, or a delta. `recordCompletion` carries the decision out.
  * An exception can come before anything is changed, when the record object is built (the routing
    coverage is changed by then), or when the snapshot is written (the turn is appended by then):
    `RecordFault` says where.
  * Disk snapshots and log lines are not modelled: nothing here reads them back.
-/
import RolloutProxy.Recorder.Merge

namespace RolloutProxy

/-- An unresolved recording error and the position an exact retry can repair. -/
structure FailedTurn where
  messages : List Fields
  promptTokenIds : List Int
  tokenIds : List Int
  recordedTurns : Nat

structure SessionRecorder where
  sessions : Dict String SessionRecord
  /-- session id ↦ monotonic deletion time, in deletion order -/
  deleted : Dict String Rat
  /-- the first unresolved recording error of each agent -/
  recordingFailed : Dict String (Dict (Option String) FailedTurn)

/-- The arguments of `record_completion`. -/
structure Delivery where
  messages : List Fields
  completionText : String
  tokenIds : List Int
  logprobs : List PyFloat
  finishReason : Option String
  promptTokenIds : List Int
  agentId : Option String
  content : Option String
  reasoningContent : Option String
  toolCalls : Option (List ToolCall)
  weightVersion : Option String
  routedExperts : BlobArg
  samplingParams : Option Fields

/-- Where an exception strikes inside `record_completion`, if one does. -/
inductive RecordFault where
  | early
  | construct
  | late
  deriving DecidableEq

/-- `_TOMBSTONE_TTL` and `_MAX_TOMBSTONES`. -/
def tombstoneTtl : Rat := 3600
def maxTombstones : Nat := 8192

/-! ## 1. What a delivery is -/

/-- `normalize_messages(messages) == other`. -/
def normalizesTo (messages other : List Fields) : Except PyError Bool :=
  match normalizeMessages messages with
  | .error e => refuse e
  | .ok normalized => .ok (sameMessages normalized other)

/-- `normalize_messages(messages) == normalize_messages(other)`. -/
def normalizeAlike (messages other : List Fields) : Except PyError Bool :=
  match normalizeMessages messages, normalizeMessages other with
  | .error e, _ => refuse e
  | .ok _, .error e => refuse e
  | .ok l, .ok r => .ok (sameMessages l r)

theorem normalizeAlike_ok {l m : List Fields} (hl : ∃ n, normalizeMessages l = .ok n)
    (hm : ∃ n, normalizeMessages m = .ok n) : ∃ b, normalizeAlike l m = .ok b := by
  obtain ⟨n, hn⟩ := hl
  obtain ⟨n', hn'⟩ := hm
  exact ⟨sameMessages n n', by simp only [normalizeAlike, hn, hn']⟩

/-- Equal normalized messages: as many non-assistant messages, an assistant in both or neither. -/
theorem normalizeAlike_true {l m : List Fields} (h : normalizeAlike l m = .ok true) :
    (nonAssistant l).length = (nonAssistant m).length ∧
      l.any isAssistant = m.any isAssistant := by
  unfold normalizeAlike at h
  cases hl : normalizeMessages l with
  | error e => rw [hl] at h; cases h
  | ok n =>
    cases hm : normalizeMessages m with
    | error e => rw [hl, hm] at h; cases h
    | ok n' =>
      rw [hl, hm] at h
      have hs : sameMessages n n' = true := by simpa using h
      have hpos := sameMessages_isAssistant hs (normalizeFrom_supported hl)
      rw [normalizeMessages_isAssistant hl, normalizeMessages_isAssistant hm] at hpos
      have hcount := congrArg (fun x => x.countP (fun b => !b)) hpos
      have hany := congrArg (fun x => x.any id) hpos
      simp only [List.countP_map, List.any_map] at hcount hany
      refine ⟨?_, by simpa using hany⟩
      simp only [nonAssistant, ← List.countP_eq_length_filter]
      exact hcount

/-- `repairs_failure`: the delivery is the failed turn, at the position where it failed. -/
def repairsFailure (failed : Option FailedTurn) (recorded : Nat) (d : Delivery) :
    Except PyError Bool :=
  match failed with
  | none => .ok false
  | some f =>
    if recorded = f.recordedTurns ∧ d.promptTokenIds = f.promptTokenIds ∧ d.tokenIds = f.tokenIds
    then normalizesTo d.messages f.messages
    else .ok false

/-- What the recorder does with a delivery. -/
inductive Placement where
  | duplicate
  | turn (newConversation : Bool) (messages : List Fields) (promptTokenIds : List Int)

/-- A delivery without assistant messages, or without recorded predecessor. -/
def placeOpening (last : Option CompletionRecord) (d : Delivery) : Except PyError Placement :=
  match last with
  | none => .ok (.turn true d.messages d.promptTokenIds)
  | some last =>
    if last.newConversation then do
      let same ← normalizeAlike d.messages last.requestMessages
      if same ∧ d.tokenIds = last.completionTokenIds ∧ d.promptTokenIds = last.promptTokenIds
      then return .duplicate
      else return .turn true d.messages d.promptTokenIds
    else .ok (.turn true d.messages d.promptTokenIds)

/-- A delivery with assistant messages behind recorded turns of its agent. -/
def placeContinuation (turns : List CompletionRecord) (last : CompletionRecord) (d : Delivery) :
    Placement :=
  let (nPrev, streamLen) := conversationExtent turns
  let new := nonAssistant d.messages
  if new.length = nPrev ∧ d.tokenIds = last.completionTokenIds ∧
      (d.promptTokenIds.length : Int) = streamLen - last.completionTokenIds.length then .duplicate
  else if new.length < nPrev ∨ d.promptTokenIds.length < streamLen then
    .turn true d.messages d.promptTokenIds
  else .turn false (new.drop nPrev) (d.promptTokenIds.drop streamLen)

/-- The decision of `record_completion` for a delivery behind the agent's recorded `turns`. -/
def placeTurn (turns : List CompletionRecord) (d : Delivery) : Except PyError Placement :=
  if d.messages.any isAssistant then
    match turns.getLast? with
    | none => .ok (.turn true d.messages d.promptTokenIds)
    | some last => .ok (placeContinuation turns last d)
  else placeOpening turns.getLast? d

/-- The record of a delivery, with the delta it is stored as. -/
def Delivery.toRecord (d : Delivery) (newConversation : Bool) (messages : List Fields)
    (promptTokenIds : List Int) : CompletionRecord where
  agentId := d.agentId
  requestMessages := messages
  promptTokenIds := promptTokenIds
  newConversation := newConversation
  completionText := d.completionText
  completionTokenIds := d.tokenIds
  completionLogprobs := d.logprobs
  finishReason := d.finishReason
  weightVersion := d.weightVersion
  samplingParams := d.samplingParams
  content := d.content
  reasoningContent := d.reasoningContent
  toolCalls := d.toolCalls

/-! ## 2. The operations -/

namespace SessionRecorder

def empty : SessionRecorder := ⟨∅, ∅, ∅⟩

variable (r : SessionRecorder)

/-- `_tombstoned` at time `now`. -/
def tombstoned (now : Rat) (sid : String) : Bool :=
  match r.deleted.get? sid with
  | none => false
  | some at_ => now - at_ < tombstoneTtl

/-- `ensure_session`. -/
def ensureSession (now : Rat) (sid : String) (modelName : Option String) : SessionRecorder :=
  if r.tombstoned now sid then r else
  match r.sessions.get? sid with
  | none => { r with sessions := r.sessions.set sid (.open sid modelName) }
  | some s =>
    match s.modelName, modelName with
    | none, some name =>
      if name = "" then r
      else { r with sessions := r.sessions.set sid { s with modelName := some name } }
    | _, _ => r

/-- The unresolved failure of an agent. -/
def failedTurn (sid : String) (agent : Option String) : Option FailedTurn :=
  (r.recordingFailed.get? sid).bind (·.get? agent)

/-- `_clear_recording_failure`. -/
def clearRecordingFailure (sid : String) (agent : Option String) : SessionRecorder :=
  match r.recordingFailed.get? sid with
  | none => r
  | some failures =>
    let rest := failures.erase agent
    { r with recordingFailed :=
        if rest.entries.isEmpty then r.recordingFailed.erase sid else r.recordingFailed.set sid rest }

/-- The failure is resolved where the delivery repairs it. -/
def resolve (sid : String) (agent : Option String) (repairs : Bool) : SessionRecorder :=
  if repairs then r.clearRecordingFailure sid agent else r

/-- The session a delivery is recorded into, opened where it is missing. -/
def sessionFor (sid : String) : SessionRecord := (r.sessions.get? sid).getD (.open sid none)

/-- `self._sessions[session_id] = session`. -/
def putSession (sid : String) (s : SessionRecord) : SessionRecorder :=
  { r with sessions := r.sessions.set sid s }

/-- The rest of `record_completion` once the delivery is placed. -/
def carryOut (sid : String) (s : SessionRecord) (d : Delivery) (fault : Option RecordFault)
    (repairs : Bool) : Placement → Except PyError Unit × SessionRecorder
  | .duplicate => (.ok (), r.resolve sid d.agentId repairs)
  | .turn new messages promptIds =>
    let routed := { s with routedExperts := routeTurn s.routedExperts d.agentId new d.routedExperts }
    if fault = some .construct then (.error (.other "invalid record"), r.putSession sid routed) else
    let record := d.toRecord new messages promptIds
    let r := (r.putSession sid { routed with turns := s.turns ++ [record] }).resolve sid d.agentId
      repairs
    (if fault = some .late then .error (.other "snapshot failed") else .ok (), r)

/-- `record_completion` at time `now`, with the exception it raises, if it does. -/
def recordCompletion (now : Rat) (sid : String) (d : Delivery) (fault : Option RecordFault) :
    Except PyError Unit × SessionRecorder :=
  if fault = some .early then (.error (.other "recording failed"), r) else
  if r.tombstoned now sid then (.ok (), r) else
  let s := r.sessionFor sid
  let turns := agentTurns s.turns d.agentId
  let r := r.putSession sid s
  match repairsFailure (r.failedTurn sid d.agentId) turns.length d, placeTurn turns d with
  | .error e, _ => (.error e, r)
  | .ok _, .error e => (.error e, r)
  | .ok repairs, .ok placement => r.carryOut sid s d fault repairs placement

@[simp] theorem putSession_failedTurn (sid k : String) (s : SessionRecord)
    (agent : Option String) : (r.putSession sid s).failedTurn k agent = r.failedTurn k agent := rfl

@[simp] theorem putSession_get? (sid k : String) (s : SessionRecord) :
    (r.putSession sid s).sessions.get? k = if k = sid then some s else r.sessions.get? k :=
  Dict.get?_set _ _ _ _

/-- A delivery that is placed is carried out. -/
theorem recordCompletion_placed {now : Rat} {sid : String} {d : Delivery}
    {fault : Option RecordFault} {s : SessionRecord} {repairs : Bool} {p : Placement}
    (hf : fault ≠ some .early) (ha : r.tombstoned now sid = false)
    (hs : r.sessions.get? sid = some s)
    (hr : repairsFailure (r.failedTurn sid d.agentId) (agentTurns s.turns d.agentId).length d =
      .ok repairs)
    (hp : placeTurn (agentTurns s.turns d.agentId) d = .ok p) :
    r.recordCompletion now sid d fault = (r.putSession sid s).carryOut sid s d fault repairs p := by
  have he : r.sessionFor sid = s := by simp [sessionFor, hs]
  unfold recordCompletion
  simp only [if_neg hf, ha, Bool.false_eq_true, if_false, he, putSession_failedTurn, hr, hp]

/-- `get_session`. -/
def getSession (sid : String) : Option SessionRecord := r.sessions.get? sid

/-- `dump_session`. -/
def dumpSession (sid : String) : Except PyError (Option SessionRecord) :=
  match r.sessions.get? sid with
  | none => .ok none
  | some s =>
    if r.recordingFailed.contains sid then
      .error (.other ("Session " ++ sid ++ " has an unresolved recording failure: " ++
        "a committed turn may be missing. Retry the failed turn before " ++
        "advancing its agent, or retry the trial on a fresh session."))
    else .ok (some s)

/-- `finalize_session`. -/
def finalizeSession (sid : String) : Except PyError SessionRecorder :=
  match r.sessions.get? sid with
  | none => .error (.other "Session disappeared during finalization")
  | some s =>
    if r.recordingFailed.contains sid then
      .error (.other "Session has an unresolved recording failure; retry the trial on a fresh session")
    else .ok (r.putSession sid { s with completed := true })

/-- `mark_recording_failed` at time `now`: the first failure of an agent is kept. -/
def markRecordingFailed (now : Rat) (sid : String) (agent : Option String) (messages : List Fields)
    (promptTokenIds tokenIds : List Int) : Except PyError Unit × SessionRecorder :=
  if r.tombstoned now sid then (.ok (), r) else
  let failures := (r.recordingFailed.get? sid).getD ∅
  let r := { r with recordingFailed := r.recordingFailed.set sid failures }
  if failures.contains agent then (.ok (), r) else
  match normalizeMessages messages with
  | .error e => (refuse e, r)
  | .ok normalized =>
    let failed : FailedTurn :=
      { messages := normalized, promptTokenIds := promptTokenIds, tokenIds := tokenIds,
        recordedTurns := (agentTurns ((r.sessions.get? sid).elim [] (·.turns)) agent).length }
    (.ok (), { r with recordingFailed := r.recordingFailed.set sid (failures.set agent failed) })

/-- Expired tombstones at the front; `fuel` bounds the loop by the size of the table. -/
def dropExpired (cutoff : Rat) : Nat → Dict String Rat → Dict String Rat
  | 0, d => d
  | fuel + 1, d =>
    match d.popFirst with
    | none => d
    | some ((_, at_), rest) => if cutoff ≤ at_ then d else dropExpired cutoff fuel rest

/-- The oldest tombstones above the cap. -/
def dropOverflow : Nat → Dict String Rat → Dict String Rat
  | 0, d => d
  | fuel + 1, d =>
    if maxTombstones < d.size then
      match d.popFirst with
      | none => d
      | some (_, rest) => dropOverflow fuel rest
    else d

/-- `_prune_tombstones`. -/
def pruneTombstones (now : Rat) (d : Dict String Rat) : Dict String Rat :=
  let d := dropExpired (now - tombstoneTtl) d.size d
  dropOverflow d.size d

/-- `delete_session`. -/
def deleteSession (now : Rat) (sid : String) : SessionRecorder where
  sessions := r.sessions.erase sid
  recordingFailed := r.recordingFailed.erase sid
  deleted := pruneTombstones now ((r.deleted.set sid now).moveToEnd sid)

end SessionRecorder

end RolloutProxy
