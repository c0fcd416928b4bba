/-
  File:      RolloutProxy/Lib/LastSplit.lean
  Subject:   SPLITTING AT THE LAST OCCURRENCE of a separator: Python's `rpartition` on lists.

  * `LastSplit` says what the split is; `rpartition_iff` that the search finds it.
  * **`lastSplit_of_clear`**: where the separator has an item that the rest has none of, the last
    occurrence is the one that was written, however the separator overlaps itself.
-/
import Mathlib.Data.List.Infix

namespace RolloutProxy

variable {α : Type}

/-- `l` is `head`, the last occurrence of `sep`, and `tail`. -/
structure LastSplit (sep l head tail : List α) : Prop where
  split : l = head ++ sep ++ tail
  last : ∀ head' tail', l = head' ++ sep ++ tail' → head'.length ≤ head.length

theorem LastSplit.unique {sep l head tail head' tail' : List α} (h : LastSplit sep l head tail)
    (h' : LastSplit sep l head' tail') : head = head' ∧ tail = tail' := by
  have hlen : head.length = head'.length :=
    Nat.le_antisymm (h'.last _ _ h.split) (h.last _ _ h'.split)
  have heq : head ++ (sep ++ tail) = head' ++ (sep ++ tail') := by
    rw [← List.append_assoc, ← List.append_assoc, ← h.split, ← h'.split]
  obtain ⟨rfl, hrest⟩ := List.append_inj heq hlen
  exact ⟨rfl, List.append_cancel_left hrest⟩

/-- The last item of a list that fails a test. -/
theorem exists_last_not {p : α → Prop} : ∀ {l : List α}, (∃ c ∈ l, ¬ p c) →
    ∃ u c v, l = u ++ c :: v ∧ ¬ p c ∧ ∀ x ∈ v, p x
  | [], ⟨_, hc, _⟩ => absurd hc List.not_mem_nil
  | a :: l, h => by
      by_cases hl : ∃ c ∈ l, ¬ p c
      · obtain ⟨u, c, v, rfl, hc, hv⟩ := exists_last_not hl
        exact ⟨a :: u, c, v, rfl, hc, hv⟩
      · have hrest : ∀ x ∈ l, p x := fun x hx => by_contra fun hn => hl ⟨x, hx, hn⟩
        obtain ⟨c, hc, hn⟩ := h
        rcases List.mem_cons.mp hc with rfl | hc
        · exact ⟨[], c, l, rfl, hn, hrest⟩
        · exact absurd (hrest c hc) hn

/-- **The separator that was written last is the last one**, where it has an item that does not
    stand behind it. -/
theorem lastSplit_of_clear {p : α → Prop} {sep head tail : List α} (hsep : ∃ c ∈ sep, ¬ p c)
    (htail : ∀ c ∈ tail, p c) : LastSplit sep (head ++ sep ++ tail) head tail := by
  refine ⟨rfl, fun head' tail' h => ?_⟩
  obtain ⟨u, c, v, rfl, hc, hv⟩ := exists_last_not hsep
  by_contra hlonger
  -- a later occurrence puts `c` behind the written one
  have hsame : (head ++ u ++ [c]) ++ (v ++ tail) = (head' ++ u ++ [c]) ++ (v ++ tail') := by
    simpa using h
  rcases List.append_eq_append_iff.mp hsame with ⟨w, hhead, htails⟩ | ⟨w, hhead, -⟩
  · have hlen := congrArg List.length hhead
    simp only [List.length_append, List.length_singleton] at hlen
    have hne : w ≠ [] := fun hw => by
      rw [hw, List.length_nil] at hlen
      omega
    have hlast : w.getLast hne = c := by
      have := congrArg List.getLast? hhead
      rw [List.getLast?_append_of_ne_nil _ hne, List.getLast?_concat,
        List.getLast?_eq_some_getLast hne] at this
      exact (Option.some.inj this).symm
    have hmem : c ∈ v ++ tail := by
      rw [htails]
      exact List.mem_append_left _ (hlast ▸ List.getLast_mem hne)
    rcases List.mem_append.mp hmem with hm | hm
    · exact hc (hv c hm)
    · exact hc (htail c hm)
  · have hlen := congrArg List.length hhead
    simp only [List.length_append, List.length_singleton] at hlen
    omega

variable [DecidableEq α]

/-- `l.rpartition(sep)`; `none` where the separator does not occur. -/
def rpartition (sep : List α) : List α → Option (List α × List α)
  | [] => none
  | c :: l =>
    match rpartition sep l with
    | some (head, tail) => some (c :: head, tail)
    | none => if sep.isPrefixOf (c :: l) then some ([], (c :: l).drop sep.length) else none

theorem rpartition_none {sep : List α} (hsep : sep ≠ []) : ∀ {l : List α},
    rpartition sep l = none → ∀ head tail, l ≠ head ++ sep ++ tail
  | [], _, head, tail, h => by simp [hsep] at h
  | c :: l, hnone, head, tail, h => by
      simp only [rpartition] at hnone
      split at hnone
      · cases hnone
      · next hrest =>
        cases head with
        | nil =>
          have hpre : sep.isPrefixOf (c :: l) = true :=
            List.isPrefixOf_iff_prefix.mpr ⟨tail, by rw [h, List.nil_append]⟩
          rw [if_pos hpre] at hnone
          cases hnone
        | cons a head =>
          simp only [List.cons_append, List.cons.injEq] at h
          exact rpartition_none hsep hrest head tail h.2

theorem rpartition_some {sep : List α} (hsep : sep ≠ []) : ∀ {l head tail : List α},
    rpartition sep l = some (head, tail) → LastSplit sep l head tail
  | [], _, _, h => by cases h
  | c :: l, head, tail, h => by
      simp only [rpartition] at h
      split at h
      · next head₁ tail₁ hrest =>
        cases h
        obtain ⟨hsplit, hlast⟩ := rpartition_some hsep hrest
        refine ⟨by rw [hsplit]; rfl, fun head' tail' h' => ?_⟩
        cases head' with
        | nil => exact Nat.zero_le _
        | cons a head' =>
          simp only [List.cons_append, List.cons.injEq] at h'
          exact Nat.succ_le_succ (hlast head' tail' h'.2)
      · next hrest =>
        split at h
        · next hpre =>
          cases h
          obtain ⟨t, ht⟩ := List.isPrefixOf_iff_prefix.mp hpre
          refine ⟨by rw [← ht, List.drop_left, List.nil_append], fun head' tail' h' => ?_⟩
          cases head' with
          | nil => exact Nat.zero_le _
          | cons a head' =>
            simp only [List.cons_append, List.cons.injEq] at h'
            exact absurd h'.2 (rpartition_none hsep hrest head' tail')
        · cases h

/-- **The search finds the last split.** -/
theorem rpartition_iff {sep l head tail : List α} (hsep : sep ≠ []) :
    rpartition sep l = some (head, tail) ↔ LastSplit sep l head tail := by
  refine ⟨rpartition_some hsep, fun h => ?_⟩
  cases hr : rpartition sep l with
  | none => exact absurd h.split (rpartition_none hsep hr head tail)
  | some p =>
    obtain ⟨rfl, rfl⟩ := h.unique (rpartition_some hsep hr)
    rfl

end RolloutProxy
