/-
  File:      RolloutProxy/Lib/Overlap.lean
  Subject:   THE END OF A LIST: Python's slices from the right, and the part of an ending that a
             list does not already have.

  * `lastN n l` is `l[-n:]`, `dropLastN n l` is `l[:-n]`; with Python's reading of `-0` as `0`.
  * `missing l ending` walks the prefixes of `ending` from the longest down and returns what is
    left of `ending` behind the first one that `l` ends with.
  * **`append_missing`**: where `l = body ++ had` and `had` is the longest prefix of `ending` that
    `l` ends with, `l ++ missing l ending = body ++ ending`: the ending is completed, not repeated.
  * **`missing_shortest`**: nothing shorter completes the ending.
-/
import Mathlib.Data.List.Basic
import Mathlib.Data.Nat.Find

namespace RolloutProxy

variable {α : Type}

/-! ## 1. Slices from the right -/

/-- `l[-n:]`. -/
def lastN (n : Nat) (l : List α) : List α := if n = 0 then l else l.drop (l.length - n)

/-- `l[:-n]`. -/
def dropLastN (n : Nat) (l : List α) : List α := if n = 0 then [] else l.take (l.length - n)

@[simp] theorem lastN_append {l s : List α} (hs : s ≠ []) : lastN s.length (l ++ s) = s := by
  have h : s.length ≠ 0 := by simpa using hs
  simp [lastN, h]

@[simp] theorem dropLastN_append {l s : List α} (hs : s ≠ []) :
    dropLastN s.length (l ++ s) = l := by
  have h : s.length ≠ 0 := by simpa using hs
  simp [dropLastN, h]

/-- Comparing the last items with a list asks whether the list is a suffix. -/
theorem lastN_eq_iff {l s : List α} {n : Nat} (hn : 0 < n) (hs : s.length = n) :
    lastN n l = s ↔ s <:+ l := by
  subst hs
  have h : s.length ≠ 0 := by omega
  simp only [lastN, if_neg h]
  constructor
  · intro e
    have ht := List.take_append_drop (l.length - s.length) l
    rw [e] at ht
    exact ⟨_, ht⟩
  · rintro ⟨t, rfl⟩
    simp

/-! ## 2. Completing an ending -/

variable [DecidableEq α]

/-- The loop of `missing`: `have`, `have - 1`, …, `1` items already there. -/
def missingFrom (l ending : List α) : Nat → List α
  | 0 => ending
  | n + 1 => if lastN (n + 1) l = ending.take (n + 1) then ending.drop (n + 1)
      else missingFrom l ending n

/-- What `l` lacks of `ending`. -/
def missing (l ending : List α) : List α := missingFrom l ending ending.length

/-- `l` ends with the first `n` items of `ending`. -/
def HasEnd (l ending : List α) (n : Nat) : Prop := ending.take n <:+ l

/-- `n` is the length of the longest prefix of `ending` that `l` ends with. -/
structure LongestEnd (l ending : List α) (n : Nat) : Prop where
  le : n ≤ ending.length
  has : HasEnd l ending n
  longest : ∀ m, m ≤ ending.length → HasEnd l ending m → m ≤ n

theorem missingFrom_eq {l ending : List α} {n : Nat} (h : LongestEnd l ending n) :
    ∀ k, n ≤ k → k ≤ ending.length → missingFrom l ending k = ending.drop n := by
  intro k
  induction k with
  | zero =>
      intro hk _
      have : n = 0 := by omega
      subst this
      rfl
  | succ k ih =>
      intro hk hle
      have hl : (ending.take (k + 1)).length = k + 1 := by rw [List.length_take]; omega
      have hiff := lastN_eq_iff (l := l) (Nat.succ_pos k) hl
      by_cases hh : HasEnd l ending (k + 1)
      · have : n = k + 1 := by
          have := h.longest (k + 1) hle hh
          omega
        subst this
        simp only [missingFrom, if_pos (hiff.mpr hh)]
      · have hne : n ≠ k + 1 := fun e => hh (e ▸ h.has)
        simp only [missingFrom, if_neg fun e => hh (hiff.mp e)]
        exact ih (by omega) (by omega)

/-- **What is missing is what follows the longest prefix the list ends with.** -/
theorem missing_eq {l ending : List α} {n : Nat} (h : LongestEnd l ending n) :
    missing l ending = ending.drop n := missingFrom_eq h _ h.le (Nat.le_refl _)

/-- **The ending is completed**, whatever part of it was there. -/
theorem append_missing {l body ending : List α} {n : Nat} (h : LongestEnd l ending n)
    (hl : l = body ++ ending.take n) : l ++ missing l ending = body ++ ending := by
  rw [missing_eq h, hl, List.append_assoc, List.take_append_drop]

/-! ## 3. The shortest completion -/

omit [DecidableEq α] in
/-- Some prefix of the ending is the longest one: the empty one is always there. -/
theorem exists_longestEnd (l ending : List α) : ∃ n, LongestEnd l ending n := by
  classical
  have hzero : HasEnd l ending 0 := List.nil_suffix
  exact ⟨Nat.findGreatest (HasEnd l ending) ending.length, Nat.findGreatest_le _,
    Nat.findGreatest_spec (Nat.zero_le _) hzero, fun m hm hhas => Nat.le_findGreatest hm hhas⟩

/-- `gap` is the shortest suffix of `ending` behind which `l` has the whole ending. -/
structure ShortestCompletion (l ending gap : List α) : Prop where
  suffix : gap <:+ ending
  completes : ending <:+ l ++ gap
  shortest : ∀ gap', gap' <:+ ending → ending <:+ l ++ gap' → gap.length ≤ gap'.length

omit [DecidableEq α] in
/-- A suffix of the ending completes the list exactly where the rest of the ending is there. -/
theorem completes_iff (l ending : List α) (n : Nat) :
    ending <:+ l ++ ending.drop n ↔ HasEnd l ending n := by
  unfold HasEnd
  have hsplit : ending.take n ++ ending.drop n <:+ l ++ ending.drop n ↔ ending.take n <:+ l :=
    List.suffix_append_self_iff
  rwa [List.take_append_drop] at hsplit

/-- **What is missing is the shortest completion**, also of an ending that overlaps itself. -/
theorem missing_shortest (l ending : List α) :
    ShortestCompletion l ending (missing l ending) := by
  obtain ⟨n, hn⟩ := exists_longestEnd l ending
  rw [missing_eq hn]
  refine ⟨List.drop_suffix n ending, (completes_iff l ending n).mpr hn.has, fun gap' hgap' h => ?_⟩
  have hlen := hgap'.length_le
  have hcut : gap' = ending.drop (ending.length - gap'.length) := List.suffix_iff_eq_drop.mp hgap'
  rw [hcut] at h
  have hle := hn.longest _ (Nat.sub_le _ _) ((completes_iff l ending _).mp h)
  rw [List.length_drop]
  omega

end RolloutProxy
