/-
  File:      RolloutProxy/Recorder/Tombstones.lean
  Subject:   WHAT THE RECORDER KEEPS OF A DELETED SESSION: nothing, as long as its tombstone lasts.

  * `Touches`: an operation on one session leaves the others and the tombstones alone, and does
    nothing to a tombstoned session;
  * `deleteSession_tombstoned`, `tombstoned_before`: a deletion sets a tombstone of its own and
    no other, whatever it prunes.
-/
import RolloutProxy.Recorder.Alignment
import Mathlib.Algebra.Order.Ring.Rat
import Mathlib.Tactic.Linarith

namespace RolloutProxy

namespace SessionRecorder

variable {r r' : SessionRecorder} {now : Rat} {sid s : String}

/-- The recorder holds nothing of a session. -/
structure Blank (r : SessionRecorder) (s : String) : Prop where
  record : r.sessions.get? s = none
  failures : r.recordingFailed.get? s = none

/-! ## 1. The operations on one session -/

/-- What an operation on session `sid` may do. -/
structure Touches (now : Rat) (sid : String) (r r' : SessionRecorder) : Prop where
  deleted : r'.deleted = r.deleted
  record : ∀ s, s ≠ sid → r'.sessions.get? s = r.sessions.get? s
  failures : ∀ s, s ≠ sid → r'.recordingFailed.get? s = r.recordingFailed.get? s
  tombstoned : r.tombstoned now sid = true → r' = r

namespace Touches

theorem refl (now : Rat) (sid : String) (r : SessionRecorder) : Touches now sid r r :=
  ⟨rfl, fun _ _ => rfl, fun _ _ => rfl, fun _ => rfl⟩

/-- A session without record stays so, if it is tombstoned or another one. -/
theorem blank (h : Touches now sid r r') (hb : r.Blank s)
    (ht : s = sid → r.tombstoned now sid = true) : r'.Blank s := by
  by_cases hs : s = sid
  · rw [h.tombstoned (ht hs)]
    exact hb
  · exact ⟨(h.record s hs).trans hb.record, (h.failures s hs).trans hb.failures⟩

theorem tombstoned_eq (h : Touches now sid r r') (t : Rat) (s : String) :
    r'.tombstoned t s = r.tombstoned t s := by
  unfold SessionRecorder.tombstoned
  rw [h.deleted]

/-- One session's entries are put, the tombstones stay. -/
theorem of_live (ha : r.tombstoned now sid = false) (hd : r'.deleted = r.deleted)
    (hr : ∀ s, s ≠ sid → r'.sessions.get? s = r.sessions.get? s)
    (hf : ∀ s, s ≠ sid → r'.recordingFailed.get? s = r.recordingFailed.get? s) :
    Touches now sid r r' :=
  ⟨hd, hr, hf, fun h => by rw [ha] at h; cases h⟩

end Touches

theorem ensureSession_touches (r : SessionRecorder) (now : Rat) (sid : String)
    (model : Option String) : Touches now sid r (r.ensureSession now sid model) := by
  unfold ensureSession
  split
  · exact .refl now sid r
  · next ha =>
    have ha : r.tombstoned now sid = false := by simpa using ha
    have hput : ∀ x, Touches now sid r { r with sessions := r.sessions.set sid x } := fun x =>
      .of_live ha rfl (fun s hs => Dict.get?_set_ne _ _ hs) (fun _ _ => rfl)
    split
    · exact hput _
    · split
      · split
        · exact .refl now sid r
        · exact hput _
      · exact .refl now sid r

theorem clearRecordingFailure_failures (r : SessionRecorder) (agent : Option String)
    (hs : s ≠ sid) :
    (r.clearRecordingFailure sid agent).recordingFailed.get? s = r.recordingFailed.get? s := by
  unfold clearRecordingFailure
  split
  · rfl
  · simp only
    split
    · exact Dict.get?_erase_ne _ hs
    · exact Dict.get?_set_ne _ _ hs

theorem resolve_failures (r : SessionRecorder) (agent : Option String) (repairs : Bool)
    (hs : s ≠ sid) :
    (r.resolve sid agent repairs).recordingFailed.get? s = r.recordingFailed.get? s := by
  unfold resolve
  split
  · exact r.clearRecordingFailure_failures agent hs
  · rfl

theorem carryOut_others (r : SessionRecorder) (x : SessionRecord) (d : Delivery)
    (fault : Option RecordFault) (repairs : Bool) (p : Placement) (hs : s ≠ sid) :
    (r.carryOut sid x d fault repairs p).2.sessions.get? s = r.sessions.get? s ∧
      (r.carryOut sid x d fault repairs p).2.recordingFailed.get? s =
        r.recordingFailed.get? s := by
  cases p with
  | duplicate =>
    simp only [carryOut]
    rw [resolve_sessions]
    exact ⟨rfl, r.resolve_failures d.agentId repairs hs⟩
  | turn new messages promptIds =>
    simp only [carryOut]
    split
    · exact ⟨by rw [putSession_get?, if_neg hs], rfl⟩
    · simp only [resolve_sessions, putSession_get?, if_neg hs, true_and]
      exact resolve_failures _ d.agentId repairs hs

theorem recordCompletion_touches (r : SessionRecorder) (now : Rat) (sid : String) (d : Delivery)
    (fault : Option RecordFault) : Touches now sid r (r.recordCompletion now sid d fault).2 := by
  have hdeleted := r.recordCompletion_deleted now sid d fault
  unfold recordCompletion at hdeleted ⊢
  split
  · exact .refl now sid r
  · next hf =>
    rw [if_neg hf] at hdeleted
    split
    · exact .refl now sid r
    · next ha =>
      rw [if_neg ha] at hdeleted
      have hput : ∀ s, s ≠ sid →
          (r.putSession sid (r.sessionFor sid)).sessions.get? s = r.sessions.get? s :=
        fun s hs => by rw [putSession_get?, if_neg hs]
      simp only at hdeleted ⊢
      refine .of_live (by simpa using ha) hdeleted (fun s hs => ?_) (fun s hs => ?_)
      · split
        · exact hput s hs
        · exact hput s hs
        · exact (carryOut_others _ _ d fault _ _ hs).1.trans (hput s hs)
      · split
        · rfl
        · rfl
        · exact (carryOut_others _ _ d fault _ _ hs).2

theorem markRecordingFailed_touches (r : SessionRecorder) (now : Rat) (sid : String)
    (agent : Option String) (messages : List Fields) (promptIds ids : List Int) :
    Touches now sid r (r.markRecordingFailed now sid agent messages promptIds ids).2 := by
  unfold markRecordingFailed
  split
  · exact .refl now sid r
  · next ha =>
    have ha : r.tombstoned now sid = false := by simpa using ha
    simp only
    split
    · exact .of_live ha rfl (fun _ _ => rfl) (fun s hs => Dict.get?_set_ne _ _ hs)
    · split
      · exact .of_live ha rfl (fun _ _ => rfl) (fun s hs => Dict.get?_set_ne _ _ hs)
      · refine .of_live ha rfl (fun _ _ => rfl) (fun s hs => ?_)
        simp only [Dict.get?_set_ne _ _ hs]

/-- A record that is sealed was there, without unresolved failure. -/
theorem finalizeSession_ok (h : r.finalizeSession sid = .ok r') :
    ∃ x, r.sessions.get? sid = some x ∧ r.recordingFailed.get? sid = none ∧
      r' = r.putSession sid { x with completed := true } := by
  unfold finalizeSession at h
  split at h
  · cases h
  · next x hx =>
    split at h
    · cases h
    · next hf =>
      cases h
      exact ⟨x, hx, (Dict.contains_eq_false_iff _ _).mp (eq_false_of_ne_true hf), rfl⟩

/-! ## 2. Tombstones -/

/-- A tombstone that lasts has lasted. -/
theorem tombstoned_mono {later : Rat} (hn : now ≤ later) (h : r.tombstoned later s = true) :
    r.tombstoned now s = true := by
  unfold tombstoned at h ⊢
  split at h
  · cases h
  · next at_ hat =>
    simp only [decide_eq_true_eq] at h ⊢
    exact lt_of_le_of_lt (by linarith) h

/-- Pruning only drops tombstones. -/
theorem dropExpired_get? (cutoff : Rat) (fuel : Nat) (d : Dict String Rat) {k : String} {v : Rat}
    (h : (dropExpired cutoff fuel d).get? k = some v) : d.get? k = some v := by
  induction fuel generalizing d with
  | zero => exact h
  | succ fuel ih =>
    unfold dropExpired at h
    split at h
    · exact h
    · next e at_ rest hpop =>
      split at h
      · exact h
      · have hrest := ih rest h
        rw [Dict.get?_popFirst hpop] at hrest
        split at hrest
        · cases hrest
        · exact hrest

theorem dropOverflow_get? (fuel : Nat) (d : Dict String Rat) {k : String} {v : Rat}
    (h : (dropOverflow fuel d).get? k = some v) : d.get? k = some v := by
  induction fuel generalizing d with
  | zero => exact h
  | succ fuel ih =>
    unfold dropOverflow at h
    split at h
    · split at h
      · exact h
      · next e rest hpop =>
        have hrest := ih rest h
        rw [Dict.get?_popFirst hpop] at hrest
        split at hrest
        · cases hrest
        · exact hrest
    · exact h

/-- **A deletion sets no other tombstone.** -/
theorem tombstoned_before {t : Rat} (h : (r.deleteSession now sid).tombstoned t s = true)
    (hs : s ≠ sid) : r.tombstoned t s = true := by
  unfold tombstoned at h ⊢
  split at h
  · cases h
  · next at_ hat =>
    have hget := dropExpired_get? _ _ _ (dropOverflow_get? _ _ hat)
    rw [Dict.get?_moveToEnd, Dict.get?_set_ne _ _ hs] at hget
    rw [hget]
    exact h

/-- The last entry of a dictionary. -/
def LastEntry (d : Dict String Rat) (k : String) (v : Rat) : Prop :=
  d.entries.getLast? = some (k, v)

theorem LastEntry.get? {d : Dict String Rat} {k : String} {v : Rat} (h : LastEntry d k v) :
    d.get? k = some v :=
  (Dict.get?_eq_some_iff d k v).mpr (List.mem_of_getLast? h)

theorem moveToEnd_last {d : Dict String Rat} {k : String} {v : Rat} (h : d.get? k = some v) :
    LastEntry (d.moveToEnd k) k v := by
  unfold LastEntry Dict.moveToEnd
  rw [h]
  have hk : k ∉ (d.erase k).entries.map Prod.fst :=
    (Dict.get?_eq_none_iff (d.erase k) k).mp (Dict.get?_erase_self d k)
  simp only [Dict.set_entries, if_neg hk, List.getLast?_concat]

/-- The first entry is not the last one, unless it is the only one. -/
theorem LastEntry.popFirst {d rest : Dict String Rat} {k : String} {v : Rat} {e : String × Rat}
    (h : LastEntry d k v) (hpop : d.popFirst = some (e, rest)) :
    LastEntry rest k v ∨ e = (k, v) ∧ d.size = 1 := by
  unfold LastEntry at h ⊢
  unfold Dict.popFirst at hpop
  split at hpop
  · cases hpop
  · next e' l he =>
    cases hpop
    rw [he] at h
    cases l with
    | nil =>
      simp only [List.getLast?_singleton, Option.some.injEq] at h
      exact .inr ⟨h, by rw [Dict.size, he]; rfl⟩
    | cons x l => exact .inl (by simpa using h)

theorem LastEntry.dropExpired {cutoff : Rat} {k : String} {v : Rat} (hv : cutoff ≤ v) :
    ∀ (fuel : Nat) {d : Dict String Rat}, LastEntry d k v →
      LastEntry (SessionRecorder.dropExpired cutoff fuel d) k v
  | 0, _, h => h
  | fuel + 1, d, h => by
    unfold SessionRecorder.dropExpired
    split
    · exact h
    · next e at_ rest hpop =>
      split
      · exact h
      · next hexp =>
        rcases h.popFirst hpop with hrest | ⟨he, -⟩
        · exact hrest.dropExpired hv fuel
        · cases he
          exact absurd hv hexp

theorem LastEntry.dropOverflow {k : String} {v : Rat} :
    ∀ (fuel : Nat) {d : Dict String Rat}, LastEntry d k v →
      LastEntry (SessionRecorder.dropOverflow fuel d) k v
  | 0, _, h => h
  | fuel + 1, d, h => by
    unfold SessionRecorder.dropOverflow
    split
    · next hsize =>
      split
      · exact h
      · next e rest hpop =>
        rcases h.popFirst hpop with hrest | ⟨-, hone⟩
        · exact hrest.dropOverflow fuel
        · rw [hone] at hsize
          exact absurd hsize (by decide)
    · exact h

/-- A tombstone set now is not pruned. -/
theorem LastEntry.prune {d : Dict String Rat} {k : String} (h : LastEntry d k now) :
    LastEntry (pruneTombstones now d) k now := by
  have hcut : now - tombstoneTtl ≤ now := by
    unfold tombstoneTtl
    linarith
  exact (h.dropExpired hcut d.size).dropOverflow _

/-- **A deletion tombstones its session**, whatever is pruned. -/
theorem deleteSession_tombstoned (r : SessionRecorder) (now : Rat) (sid : String) :
    (r.deleteSession now sid).tombstoned now sid = true := by
  have hlast : LastEntry ((r.deleted.set sid now).moveToEnd sid) sid now :=
    moveToEnd_last (Dict.get?_set_self _ _ _)
  unfold tombstoned deleteSession
  simp only [hlast.prune.get?, sub_self, decide_eq_true_eq]
  decide

theorem deleteSession_blank (r : SessionRecorder) (now : Rat) (sid s : String)
    (h : s = sid ∨ r.Blank s) : (r.deleteSession now sid).Blank s := by
  by_cases hs : s = sid
  · subst hs
    exact ⟨Dict.get?_erase_self _ _, Dict.get?_erase_self _ _⟩
  · have hb := h.resolve_left hs
    exact ⟨(Dict.get?_erase_ne _ hs).trans hb.record, (Dict.get?_erase_ne _ hs).trans hb.failures⟩

end SessionRecorder

end RolloutProxy
