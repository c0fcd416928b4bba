/-
  File:      RolloutProxy/Lib/Search.lean
  Subject:   LEFTMOST SEARCH in a list, for a matcher that reads a list from its head.

  `searchFrom m i l` is what a regular-expression search does: the first suffix of `l` the matcher
  accepts, with its position (`i` is the position of the head of `l`). The lemmas say where it
  stops, and that nothing matched before.
-/
import Mathlib.Data.List.Infix

namespace RolloutProxy

variable {α β : Type}

/-- The first position from `i` on where `m` accepts, with what it accepts. -/
def searchFrom (m : List α → Option β) : Nat → List α → Option (Nat × β)
  | _, [] => none
  | i, c :: l =>
    match m (c :: l) with
    | some b => some (i, b)
    | none => searchFrom m (i + 1) l

/-- Where a search stops: the match, and no match before it. -/
theorem searchFrom_some {m : List α → Option β} {i j : Nat} {l : List α} {b : β}
    (h : searchFrom m i l = some (j, b)) :
    i ≤ j ∧ j < i + l.length ∧ m (l.drop (j - i)) = some b ∧
      ∀ k, i ≤ k → k < j → m (l.drop (k - i)) = none := by
  induction l generalizing i with
  | nil => cases h
  | cons c l ih =>
      unfold searchFrom at h
      split at h
      · next b' hb =>
        cases h
        exact ⟨le_rfl, by simp, by simpa using hb, fun k h₁ h₂ => absurd h₁ (by omega)⟩
      · next hn =>
        obtain ⟨hij, hlt, hm, hbefore⟩ := ih h
        refine ⟨by omega, by simp only [List.length_cons]; omega, ?_, fun k h₁ h₂ => ?_⟩
        · rw [show j - i = (j - (i + 1)) + 1 by omega, List.drop_succ_cons]
          exact hm
        · rcases Nat.eq_or_lt_of_le h₁ with rfl | h₁
          · simpa using hn
          · rw [show k - i = (k - (i + 1)) + 1 by omega, List.drop_succ_cons]
            exact hbefore k h₁ h₂

theorem searchFrom_none {m : List α → Option β} {i : Nat} {l : List α}
    (h : searchFrom m i l = none) : ∀ k, k < l.length → m (l.drop k) = none := by
  induction l generalizing i with
  | nil => intro k hk; simp at hk
  | cons c l ih =>
      unfold searchFrom at h
      split at h
      · cases h
      · next hn =>
        intro k hk
        cases k with
        | zero => simpa using hn
        | succ k =>
            rw [List.drop_succ_cons]
            exact ih h k (by simpa using hk)

/-- A search finds nothing where nothing matches. -/
theorem searchFrom_eq_none {m : List α → Option β} {i : Nat} {l : List α}
    (h : ∀ k, k < l.length → m (l.drop k) = none) : searchFrom m i l = none := by
  cases hs : searchFrom m i l with
  | none => rfl
  | some p =>
      obtain ⟨h₁, h₂, hm, -⟩ := searchFrom_some (b := p.2) (j := p.1) hs
      rw [h (p.1 - i) (by omega)] at hm
      cases hm

/-- A matcher of a text that has one special character, at its head, finds it in front of a second
    such character or not at all. -/
theorem isPrefix_of_append_cons {c : α} {t x y : List α} (ht : c ∉ t.tail) (hx : x ≠ [])
    (h : t <+: x ++ c :: y) : t <+: x := by
  rcases le_or_gt t.length x.length with hle | hgt
  · exact List.prefix_of_prefix_length_le h (List.prefix_append x (c :: y)) hle
  · exfalso
    obtain ⟨s, hs⟩ := h
    have hget : t[x.length]? = some c := by
      have := congrArg (fun l : List α => l[x.length]?) hs
      simp only [List.getElem?_append_left hgt, List.getElem?_append_right le_rfl, Nat.sub_self,
        List.getElem?_cons_zero] at this
      exact this
    refine ht ?_
    have hpos : 0 < x.length := List.length_pos_iff.mpr hx
    refine List.mem_of_getElem? (i := x.length - 1) ?_
    rw [List.getElem?_tail, Nat.sub_add_cancel hpos]
    exact hget

end RolloutProxy
