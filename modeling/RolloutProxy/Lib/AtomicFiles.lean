/-
  File:      RolloutProxy/Lib/AtomicFiles.lean
  Subject:   VERSIONED SNAPSHOTS IN FILES that are written beside and renamed into place.

  Snapshots of a key are taken with increasing versions and wait to be saved. A save holds the
  lock: it is dropped where a later version was started already, else it writes a temporary file
  piece by piece and renames it, unless it fails on the way. Whatever the order of the saves:

  * a file is one whole snapshot of its key (`Inv`), and its version never decreases
    (`step_forward`);
  * only the rename of its own key changes a file (`step_file`);
  * where no save fails, the file of a key is in the end its last snapshot (`last_saved`).
-/
import RolloutProxy.Lib.Dict
import RolloutProxy.Lib.Run
import Mathlib.Order.Nat

namespace RolloutProxy.AtomicFiles

/-! ## 1. The system -/

/-- A snapshot on its way to its file. -/
structure Flush (κ χ : Type) where
  key : κ
  payload : List χ
  version : Nat

/-- A file, and the version it is written for, which the disk does not hold. -/
structure File (χ : Type) where
  text : List χ
  version : Nat

/-- The save that holds the lock; `written` counts what is in its temporary file, once open. -/
structure Writing (κ χ : Type) where
  flush : Flush κ χ
  written : Option Nat

/-- The names of the files; `writable` says which keys make a name. -/
structure Names (κ ν : Type) where
  file : κ → ν
  temp : κ → ν
  writable : κ → Bool
  file_injective : Function.Injective file
  apart : ∀ k k', file k ≠ temp k'

structure Files (κ ν χ : Type) where
  versions : Dict κ Nat
  /-- the version started last -/
  latest : Dict κ Nat
  pending : List (Flush κ χ)
  writing : Option (Writing κ χ)
  files : Dict ν (File χ)
  /-- every snapshot so far, in its order -/
  taken : List (Flush κ χ)

/-- What the saving threads do. -/
inductive Action where
  | start (i : Nat)
  | openTemp
  | write (n : Nat)
  | replace
  | fail
  deriving DecidableEq

inductive Event (κ χ : Type) where
  | take (key : κ) (payload : List χ)
  /-- a version without a snapshot -/
  | skip (key : κ)
  | save (a : Action)

section System

variable {κ ν χ : Type} [DecidableEq κ] [DecidableEq ν]

namespace Files

def empty : Files κ ν χ := ⟨∅, ∅, [], none, ∅, []⟩

variable (s : Files κ ν χ)

def version (k : κ) : Nat := (s.versions.get? k).getD 0
def started (k : κ) : Nat := (s.latest.get? k).getD 0

/-- A snapshot is taken. -/
def take (k : κ) (payload : List χ) : Files κ ν χ :=
  { s with
    versions := s.versions.set k (s.version k + 1)
    pending := s.pending ++ [⟨k, payload, s.version k + 1⟩]
    taken := s.taken ++ [⟨k, payload, s.version k + 1⟩] }

def skip (k : κ) : Files κ ν χ := { s with versions := s.versions.set k (s.version k + 1) }

/-- One step of a save. -/
def save (names : Names κ ν) : Action → Option (Files κ ν χ)
  | .start i =>
    match s.writing, s.pending[i]? with
    | none, some f =>
      if f.version < s.started f.key then some { s with pending := s.pending.eraseIdx i }
      else some { s with
        pending := s.pending.eraseIdx i
        latest := s.latest.set f.key f.version
        writing := some ⟨f, none⟩ }
    | _, _ => none
  | .openTemp =>
    match s.writing with
    | some ⟨f, none⟩ =>
      if names.writable f.key then
        some { s with
          files := s.files.set (names.temp f.key) ⟨[], f.version⟩
          writing := some ⟨f, some 0⟩ }
      else none
    | _ => none
  | .write n =>
    match s.writing with
    | some ⟨f, some m⟩ =>
      some { s with
        files := s.files.set (names.temp f.key) ⟨f.payload.take (m + n), f.version⟩
        writing := some ⟨f, some (m + n)⟩ }
    | _ => none
  | .replace =>
    match s.writing with
    | some ⟨f, some m⟩ =>
      if f.payload.length ≤ m then
        (s.files.get? (names.temp f.key)).map fun file =>
          { s with
            files := (s.files.erase (names.temp f.key)).set (names.file f.key) file
            writing := none }
      else none
    | _ => none
  | .fail =>
    match s.writing with
    | some _ => some { s with writing := none }
    | none => none

def step (names : Names κ ν) : Event κ χ → Option (Files κ ν χ)
  | .take k payload => some (s.take k payload)
  | .skip k => some (s.skip k)
  | .save a => s.save names a

end Files

/-! ## 2. What a step can do -/

variable {names : Names κ ν} {s t : Files κ ν χ}

/-- **The step of a save.** -/
inductive Saves (names : Names κ ν) (s : Files κ ν χ) : Action → Files κ ν χ → Prop
  | drop {i : Nat} {f : Flush κ χ} (idle : s.writing = none) (waits : s.pending[i]? = some f)
      (old : f.version < s.started f.key) :
      Saves names s (.start i) { s with pending := s.pending.eraseIdx i }
  | start {i : Nat} {f : Flush κ χ} (idle : s.writing = none) (waits : s.pending[i]? = some f)
      (new : s.started f.key ≤ f.version) :
      Saves names s (.start i) { s with
        pending := s.pending.eraseIdx i
        latest := s.latest.set f.key f.version
        writing := some ⟨f, none⟩ }
  | openTemp {f : Flush κ χ} (busy : s.writing = some ⟨f, none⟩) :
      Saves names s .openTemp { s with
        files := s.files.set (names.temp f.key) ⟨[], f.version⟩
        writing := some ⟨f, some 0⟩ }
  | write {f : Flush κ χ} {m : Nat} (n : Nat) (busy : s.writing = some ⟨f, some m⟩) :
      Saves names s (.write n) { s with
        files := s.files.set (names.temp f.key) ⟨f.payload.take (m + n), f.version⟩
        writing := some ⟨f, some (m + n)⟩ }
  | replace {f : Flush κ χ} {m : Nat} {file : File χ} (busy : s.writing = some ⟨f, some m⟩)
      (whole : f.payload.length ≤ m) (temp : s.files.get? (names.temp f.key) = some file) :
      Saves names s .replace { s with
        files := (s.files.erase (names.temp f.key)).set (names.file f.key) file
        writing := none }
  | fail {x : Writing κ χ} (busy : s.writing = some x) : Saves names s .fail { s with writing := none }

theorem saves_of_save {a : Action} (h : s.save names a = some t) : Saves names s a t := by
  cases a with
  | start i =>
    simp only [Files.save] at h
    split at h
    · next f hidle hwaits =>
      split at h
      · next hold =>
        cases h
        exact .drop hidle hwaits hold
      · next hnew =>
        cases h
        exact .start hidle hwaits (Nat.not_lt.mp hnew)
    · cases h
  | openTemp =>
    simp only [Files.save] at h
    split at h
    · next f hbusy =>
      split at h
      · cases h
        exact .openTemp hbusy
      · cases h
    · cases h
  | write n =>
    simp only [Files.save] at h
    split at h
    · next f m hbusy =>
      cases h
      exact .write n hbusy
    · cases h
  | replace =>
    simp only [Files.save] at h
    split at h
    · next f m hbusy =>
      split at h
      · next hwhole =>
        obtain ⟨file, htemp, h⟩ := Option.map_eq_some_iff.mp h
        cases h
        exact .replace hbusy hwhole htemp
      · cases h
    · cases h
  | fail =>
    simp only [Files.save] at h
    split at h
    · next x hbusy =>
      cases h
      exact .fail hbusy
    · cases h

/-- A save takes no snapshot. -/
theorem Saves.taken {a : Action} (h : Saves names s a t) : t.taken = s.taken := by
  cases h <;> rfl

/-! ## 3. The invariant -/

/-- Versions grow, what is being saved was taken, and a file is a whole snapshot of its key, not
    later than the version started last. -/
structure Inv (names : Names κ ν) (s : Files κ ν χ) : Prop where
  versioned : ∀ f ∈ s.taken, 0 < f.version ∧ f.version ≤ s.version f.key
  increasing : s.taken.Pairwise fun f g => f.key = g.key → f.version < g.version
  pending : ∀ f ∈ s.pending, f ∈ s.taken
  waiting : ∀ f ∈ s.taken, f ∈ s.pending ∨ f.version ≤ s.started f.key
  writing : ∀ x, s.writing = some x → x.flush ∈ s.taken ∧ s.started x.flush.key = x.flush.version
  temp : ∀ f m, s.writing = some ⟨f, some m⟩ →
    s.files.get? (names.temp f.key) = some ⟨f.payload.take m, f.version⟩
  files : ∀ k file, s.files.get? (names.file k) = some file →
    (∃ f ∈ s.taken, f.key = k ∧ file = ⟨f.payload, f.version⟩) ∧ file.version ≤ s.started k

/-- A key whose last version was started is in its file, or on its way to it. -/
def Settled (names : Names κ ν) (s : Files κ ν χ) : Prop :=
  ∀ k v, s.latest.get? k = some v →
    (∃ x, s.writing = some x ∧ x.flush.key = k ∧ x.flush.version = v) ∨
      ∃ file, s.files.get? (names.file k) = some file ∧ file.version = v

theorem inv_empty : Inv names (Files.empty : Files κ ν χ) where
  versioned := nofun
  increasing := .nil
  pending := nofun
  waiting := nofun
  writing := nofun
  temp := nofun
  files _ _ h := by cases h

theorem settled_empty : Settled names (Files.empty : Files κ ν χ) := fun _ _ h => by cases h

omit [DecidableEq ν] in
/-- A version that is issued is the largest of its key. -/
theorem version_set (k k' : κ) (v : Nat) :
    ({ s with versions := s.versions.set k v } : Files κ ν χ).version k' =
      if k' = k then v else s.version k' := by
  unfold Files.version
  rw [Dict.get?_set]
  split <;> rfl

theorem inv_take (h : Inv names s) (k : κ) (payload : List χ) : Inv names (s.take k payload) where
  versioned f hf := by
    have hversion : (s.take k payload).version f.key =
        if f.key = k then s.version k + 1 else s.version f.key := version_set _ _ _
    rw [hversion]
    rcases List.mem_append.mp hf with hf | hf
    · obtain ⟨hpos, hle⟩ := h.versioned f hf
      split
      · next hk =>
        rw [hk] at hle
        exact ⟨hpos, Nat.le_succ_of_le hle⟩
      · exact ⟨hpos, hle⟩
    · rw [List.mem_singleton.mp hf, if_pos rfl]
      exact ⟨Nat.succ_pos _, le_rfl⟩
  increasing := by
    refine List.pairwise_append.mpr ⟨h.increasing, List.pairwise_singleton _ _, fun f hf g hg hk => ?_⟩
    rw [List.mem_singleton.mp hg] at hk ⊢
    have hle := (h.versioned f hf).2
    rw [hk] at hle
    exact Nat.lt_succ_of_le hle
  pending f hf := by
    rcases List.mem_append.mp hf with hf | hf
    · exact List.mem_append_left _ (h.pending f hf)
    · exact List.mem_append_right _ hf
  waiting f hf := by
    rcases List.mem_append.mp hf with hf | hf
    · exact (h.waiting f hf).imp_left (List.mem_append_left _)
    · exact .inl (List.mem_append_right _ hf)
  writing x hx := ⟨List.mem_append_left _ (h.writing x hx).1, (h.writing x hx).2⟩
  temp := h.temp
  files k' file hfile := by
    obtain ⟨⟨f, hf, hk, he⟩, hle⟩ := h.files k' file hfile
    exact ⟨⟨f, List.mem_append_left _ hf, hk, he⟩, hle⟩

theorem inv_skip (h : Inv names s) (k : κ) : Inv names (s.skip k) where
  versioned f hf := by
    obtain ⟨hpos, hle⟩ := h.versioned f hf
    have hversion : (s.skip k).version f.key =
        if f.key = k then s.version k + 1 else s.version f.key := version_set _ _ _
    rw [hversion]
    split
    · next hk =>
      rw [hk] at hle
      exact ⟨hpos, Nat.le_succ_of_le hle⟩
    · exact ⟨hpos, hle⟩
  increasing := h.increasing
  pending := h.pending
  waiting := h.waiting
  writing := h.writing
  temp := h.temp
  files := h.files

omit [DecidableEq ν] in
theorem started_set (k k' : κ) (v : Nat) (pending : List (Flush κ χ))
    (writing : Option (Writing κ χ)) :
    ({ s with
        pending := pending
        latest := s.latest.set k v
        writing := writing } : Files κ ν χ).started k' = if k' = k then v else s.started k' := by
  unfold Files.started
  rw [Dict.get?_set]
  split <;> rfl

omit [DecidableEq κ] in
/-- A temporary file is no key's file. -/
theorem get?_file_temp (k k' : κ) (file : File χ) :
    (s.files.set (names.temp k) file).get? (names.file k') = s.files.get? (names.file k') :=
  Dict.get?_set_ne _ _ (names.apart k' k)

/-- A rename changes the file of its key. -/
theorem get?_file_replace (k k' : κ) (file : File χ) :
    ((s.files.erase (names.temp k)).set (names.file k) file).get? (names.file k') =
      if k' = k then some file else s.files.get? (names.file k') := by
  rw [Dict.get?_set]
  by_cases hk : k' = k
  · rw [if_pos hk, if_pos (congrArg names.file hk)]
  · rw [if_neg hk, if_neg fun he => hk (names.file_injective he),
      Dict.get?_erase_ne _ (names.apart k' k)]

omit [DecidableEq κ] [DecidableEq ν] in
/-- What waits and is not the one that starts waits on. -/
theorem mem_eraseIdx {f g : Flush κ χ} {i : Nat} (hi : s.pending[i]? = some f)
    (hg : g ∈ s.pending) : g = f ∨ g ∈ s.pending.eraseIdx i := by
  obtain ⟨j, hj⟩ := List.getElem?_of_mem hg
  by_cases hij : j = i
  · rw [hij, hi] at hj
    exact .inl (Option.some.inj hj).symm
  · exact .inr (List.mem_eraseIdx_iff_getElem?.mpr ⟨j, hij, hj⟩)

/-- **A save keeps the invariant.** -/
theorem inv_saves (h : Inv names s) {a : Action} (ht : Saves names s a t) : Inv names t := by
  cases ht with
  | @drop i f idle waits old =>
    exact
      { versioned := h.versioned
        increasing := h.increasing
        pending := fun g hg => h.pending g (List.mem_of_mem_eraseIdx hg)
        waiting := fun g hg => by
          rcases h.waiting g hg with hg | hg
          · rcases mem_eraseIdx waits hg with rfl | hg
            · exact .inr old.le
            · exact .inl hg
          · exact .inr hg
        writing := h.writing
        temp := h.temp
        files := h.files }
  | @start i f idle waits new =>
    have hmono : ∀ k, s.started k ≤ if k = f.key then f.version else s.started k := by
      intro k
      split
      · next hk => rw [hk]; exact new
      · exact le_rfl
    have hf : f ∈ s.taken := h.pending f (List.mem_of_getElem? waits)
    exact
      { versioned := h.versioned
        increasing := h.increasing
        pending := fun g hg => h.pending g (List.mem_of_mem_eraseIdx hg)
        waiting := fun g hg => by
          rw [started_set]
          rcases h.waiting g hg with hg | hg
          · rcases mem_eraseIdx waits hg with rfl | hg
            · exact .inr (if_pos (rfl : g.key = g.key)).ge
            · exact .inl hg
          · exact .inr (hg.trans (hmono _))
        writing := fun x hx => by
          obtain rfl := Option.some.inj hx
          exact ⟨hf, by rw [started_set, if_pos rfl]⟩
        temp := fun g m hg => by cases hg
        files := fun k file hfile => by
          rw [started_set]
          obtain ⟨htaken, hle⟩ := h.files k file hfile
          exact ⟨htaken, hle.trans (hmono k)⟩ }
  | @openTemp f busy =>
    obtain ⟨hf, hstarted⟩ := h.writing _ busy
    exact
      { versioned := h.versioned
        increasing := h.increasing
        pending := h.pending
        waiting := h.waiting
        writing := fun x hx => by
          obtain rfl := Option.some.inj hx
          exact ⟨hf, hstarted⟩
        temp := fun g m hg => by
          cases hg
          exact Dict.get?_set_self _ _ _
        files := fun k file hfile => h.files k file ((get?_file_temp _ _ _).symm.trans hfile) }
  | @write f m n busy =>
    obtain ⟨hf, hstarted⟩ := h.writing _ busy
    exact
      { versioned := h.versioned
        increasing := h.increasing
        pending := h.pending
        waiting := h.waiting
        writing := fun x hx => by
          obtain rfl := Option.some.inj hx
          exact ⟨hf, hstarted⟩
        temp := fun g k hg => by
          cases hg
          exact Dict.get?_set_self _ _ _
        files := fun k file hfile => h.files k file ((get?_file_temp _ _ _).symm.trans hfile) }
  | @replace f m file busy whole temp =>
    obtain ⟨hf, hstarted⟩ := h.writing _ busy
    exact
      { versioned := h.versioned
        increasing := h.increasing
        pending := h.pending
        waiting := h.waiting
        writing := fun _ hf => by cases hf
        temp := fun _ _ hf => by cases hf
        files := fun k file' hfile => by
          simp only [get?_file_replace] at hfile
          split at hfile
          · next hk =>
            -- the temporary file holds the snapshot to its end
            obtain rfl := Option.some.inj hfile
            obtain rfl := Option.some.inj (temp.symm.trans (h.temp f m busy))
            refine ⟨⟨f, hf, hk.symm, by rw [List.take_of_length_le whole]⟩, ?_⟩
            rw [hk]
            exact hstarted.ge
          · exact h.files k file' hfile }
  | fail busy =>
    exact
      { versioned := h.versioned
        increasing := h.increasing
        pending := h.pending
        waiting := h.waiting
        writing := fun _ hf => by cases hf
        temp := fun _ _ hf => by cases hf
        files := h.files }

theorem inv_step (h : Inv names s) {e : Event κ χ} (ht : s.step names e = some t) :
    Inv names t := by
  cases e with
  | take k payload =>
    cases ht
    exact inv_take h k payload
  | skip k =>
    cases ht
    exact inv_skip h k
  | save a => exact inv_saves h (saves_of_save ht)

/-! ## 4. What the files come to -/

/-- **Only the rename of its own snapshot changes a file.** -/
theorem step_file {e : Event κ χ} (ht : s.step names e = some t) {k : κ}
    (hk : t.files.get? (names.file k) ≠ s.files.get? (names.file k)) :
    e = .save .replace ∧ ∃ x, s.writing = some x ∧ x.flush.key = k := by
  cases e with
  | take k payload =>
    cases ht
    exact absurd rfl hk
  | skip k =>
    cases ht
    exact absurd rfl hk
  | save a =>
    cases saves_of_save ht with
    | openTemp busy => exact absurd (get?_file_temp _ _ _) hk
    | write n busy => exact absurd (get?_file_temp _ _ _) hk
    | @replace f m file busy whole temp =>
      refine ⟨rfl, _, busy, ?_⟩
      by_contra hne
      exact hk ((get?_file_replace _ _ _).trans (if_neg (Ne.symm hne)))
    | _ => exact absurd rfl hk

/-- **The version of a file never decreases.** -/
theorem step_forward (h : Inv names s) {e : Event κ χ} (ht : s.step names e = some t) {k : κ}
    {file : File χ} (hfile : s.files.get? (names.file k) = some file) :
    ∃ file', t.files.get? (names.file k) = some file' ∧ file.version ≤ file'.version := by
  by_cases hk : t.files.get? (names.file k) = s.files.get? (names.file k)
  · exact ⟨file, hk.trans hfile, le_rfl⟩
  · obtain ⟨rfl, x, hx, rfl⟩ := step_file ht hk
    obtain ⟨-, hstarted⟩ := h.writing x hx
    have hle := (h.files _ file hfile).2
    cases saves_of_save (show s.save names .replace = some t from ht) with
    | @replace f m file' busy whole temp =>
      obtain rfl := Option.some.inj (hx.symm.trans busy)
      obtain rfl := Option.some.inj (temp.symm.trans (h.temp f m busy))
      exact ⟨_, (get?_file_replace _ _ _).trans (if_pos rfl), hle.trans hstarted.le⟩

/-- Where no save fails, what was started stays on its way or arrives. -/
theorem settled_step (h : Inv names s) (hs : Settled names s) {e : Event κ χ}
    (ht : s.step names e = some t) (hfail : e ≠ .save .fail) : Settled names t := by
  cases e with
  | take k payload =>
    cases ht
    exact hs
  | skip k =>
    cases ht
    exact hs
  | save a =>
    cases saves_of_save ht with
    | drop idle waits old => exact hs
    | @start i f idle waits new =>
      intro k v hv
      simp only [Dict.get?_set] at hv
      split at hv
      · next hk => exact .inl ⟨_, rfl, hk.symm, Option.some.inj hv⟩
      · rcases hs k v hv with ⟨x, hx, -⟩ | hfile
        · rw [idle] at hx
          cases hx
        · exact .inr hfile
    | @openTemp f busy =>
      intro k v hv
      rcases hs k v hv with ⟨x, hx, hk⟩ | ⟨file, hfile, hversion⟩
      · obtain rfl := Option.some.inj (hx.symm.trans busy)
        exact .inl ⟨_, rfl, hk⟩
      · exact .inr ⟨file, (get?_file_temp _ _ _).trans hfile, hversion⟩
    | @write f m n busy =>
      intro k v hv
      rcases hs k v hv with ⟨x, hx, hk⟩ | ⟨file, hfile, hversion⟩
      · obtain rfl := Option.some.inj (hx.symm.trans busy)
        exact .inl ⟨_, rfl, hk⟩
      · exact .inr ⟨file, (get?_file_temp _ _ _).trans hfile, hversion⟩
    | @replace f m file busy whole temp =>
      obtain rfl := Option.some.inj (temp.symm.trans (h.temp f m busy))
      intro k v hv
      refine .inr ?_
      simp only [get?_file_replace]
      by_cases hk : k = f.key
      · have hstarted := (h.writing _ busy).2
        unfold Files.started at hstarted
        rw [hk] at hv
        rw [hv] at hstarted
        exact ⟨_, if_pos hk, hstarted.symm⟩
      · rcases hs k v hv with ⟨x, hx, hkey, -⟩ | ⟨file, hfile, hversion⟩
        · obtain rfl := Option.some.inj (hx.symm.trans busy)
          exact absurd hkey.symm hk
        · exact ⟨file, (if_neg hk).trans hfile, hversion⟩
    | fail busy => exact absurd rfl hfail

/-- The last snapshot of a key has its highest version. -/
theorem last_highest (h : Inv names s) {k : κ} {f : Flush κ χ} {before after : List (Flush κ χ)}
    (htaken : s.taken = before ++ f :: after) (hf : f.key = k) (hlast : ∀ g ∈ after, g.key ≠ k) :
    ∀ g ∈ s.taken, g.key = k → g = f ∨ g.version < f.version := by
  intro g hg hk
  have hincreasing := h.increasing
  rw [htaken] at hg hincreasing
  rcases List.mem_append.mp hg with hg | hg
  · exact .inr ((List.pairwise_append.mp hincreasing).2.2 g hg f List.mem_cons_self
      (hk.trans hf.symm))
  · rcases List.mem_cons.mp hg with hg | hg
    · exact .inl hg
    · exact absurd hk (hlast g hg)

/-- **Once all saves have run, a file is the last snapshot of its key**, if none of them failed. -/
theorem last_saved (h : Inv names s) (hs : Settled names s) (hpending : s.pending = [])
    (hidle : s.writing = none) {k : κ} {f : Flush κ χ} {before after : List (Flush κ χ)}
    (htaken : s.taken = before ++ f :: after) (hf : f.key = k) (hlast : ∀ g ∈ after, g.key ≠ k) :
    s.files.get? (names.file k) = some ⟨f.payload, f.version⟩ := by
  have hmem : f ∈ s.taken := by
    rw [htaken]
    exact List.mem_append_right _ List.mem_cons_self
  have hstarted : f.version ≤ s.started k := by
    rcases h.waiting f hmem with hwait | hle
    · rw [hpending] at hwait
      cases hwait
    · rw [← hf]
      exact hle
  have hpositive : 0 < f.version := (h.versioned f hmem).1
  cases hv : s.latest.get? k with
  | none =>
    unfold Files.started at hstarted
    rw [hv] at hstarted
    exact absurd (hpositive.trans_le hstarted) (lt_irrefl _)
  | some v =>
    unfold Files.started at hstarted
    rw [hv] at hstarted
    rcases hs k v hv with ⟨x, hx, -⟩ | ⟨file, hfile, hversion⟩
    · rw [hidle] at hx
      cases hx
    · obtain ⟨⟨g, hg, hgk, rfl⟩, -⟩ := h.files k file hfile
      rcases last_highest h htaken hf hlast g hg hgk with rfl | hlt
      · exact hfile
      · exact absurd (hlt.trans_le hstarted) (by rw [← hversion]; exact lt_irrefl _)

end System

end RolloutProxy.AtomicFiles
