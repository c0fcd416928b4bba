/-
  File:      RolloutProxy/TokenStream/Gap.lean
  Subject:   THE INTER-TURN GAP: `_turn_gap_ids` for every stream and all markers of a profile.

  * `endsComplete_eq`: the loop over the complete endings asks whether the stream ends with one.
  * **`turn_gap_shortest`**: the gap is empty behind a complete ending, and everywhere else the
    shortest completion of the assistant ending.
-/
import RolloutProxy.TokenStream.Oracle

namespace RolloutProxy

variable (c : ManagerConfig)

/-- The token ids of the profile's complete endings. -/
def EndingIds (idss : List (List Int)) : Prop :=
  List.Forall₂ (fun ending ids =>
    c.tokenizer.tokenize "completed assistant ending" ending = .ok ids) c.assistantTurnEndings idss

/-- The loop returns, and finds an ending with tokens where there is one. -/
theorem endsComplete_eq (stream : List Int) {endings : List String} {idss : List (List Int)}
    (h : List.Forall₂ (fun ending ids =>
      c.tokenizer.tokenize "completed assistant ending" ending = .ok ids) endings idss) :
    ∃ b, c.endsComplete stream endings = .ok b ∧
      (b = true ↔ ∃ ids ∈ idss, ids ≠ [] ∧ ids <:+ stream) := by
  induction h with
  | nil => exact ⟨false, rfl, by simp⟩
  | @cons ending ids endings idss hids _ ih =>
    unfold ManagerConfig.endsComplete
    rw [hids, ok_bind]
    split
    · next hm =>
      refine ⟨true, rfl, iff_of_true rfl ⟨ids, List.mem_cons_self, lastN_matches.mp hm⟩⟩
    · next hm =>
      obtain ⟨b, hb, hiff⟩ := ih
      refine ⟨b, hb, hiff.trans ⟨?_, ?_⟩⟩
      · rintro ⟨ids', hmem, hs⟩
        exact ⟨ids', List.mem_cons_of_mem _ hmem, hs⟩
      · rintro ⟨ids', hmem, hs⟩
        rcases List.mem_cons.mp hmem with rfl | hmem
        · exact absurd (lastN_matches.mpr hs) hm
        · exact ⟨ids', hmem, hs⟩

/-- **The gap is the shortest completion of the assistant ending**, and empty behind a complete
    ending that has tokens. -/
theorem turn_gap_shortest (stream : List Int) {idss : List (List Int)} {ending : List Int}
    (hendings : EndingIds c idss) (hend : c.turnEndIds = .ok ending) :
    ∃ gap, c.turnGapIds stream = .ok gap ∧
      ((∃ ids ∈ idss, ids ≠ [] ∧ ids <:+ stream) → gap = []) ∧
      ((¬ ∃ ids ∈ idss, ids ≠ [] ∧ ids <:+ stream) → ShortestCompletion stream ending gap) := by
  obtain ⟨b, hb, hiff⟩ := endsComplete_eq c stream hendings
  unfold ManagerConfig.turnGapIds
  rw [hb, ok_bind]
  cases b with
  | true =>
    have hcomplete := hiff.mp rfl
    exact ⟨[], rfl, fun _ => rfl, fun hopen => absurd hcomplete hopen⟩
  | false =>
    have hopen : ¬ ∃ ids ∈ idss, ids ≠ [] ∧ ids <:+ stream := fun h => by
      have := hiff.mpr h
      cases this
    rw [if_neg Bool.false_ne_true, hend]
    exact ⟨missing stream ending, rfl, fun h => absurd h hopen,
      fun _ => missing_shortest stream ending⟩

/-- A stream without the ending, and no complete endings. -/
theorem turn_gap_shortest_marker :
    ∃ gap, (Streams.markerConfig ["R"]).turnGapIds [7, 2, 1] = .ok gap ∧
      ((∃ ids ∈ [[(9 : Int)]], ids ≠ [] ∧ ids <:+ [7, 2, 1]) → gap = []) ∧
      ((¬ ∃ ids ∈ [[(9 : Int)]], ids ≠ [] ∧ ids <:+ [7, 2, 1]) →
        ShortestCompletion [7, 2, 1] [5] gap) :=
  turn_gap_shortest (Streams.markerConfig ["R"]) [7, 2, 1] (.cons rfl .nil) rfl

/-- Every stream ends with an ending that has no tokens, and yet gets its gap. -/
theorem silent_ending_completes_nothing :
    ¬ ∀ (c : ManagerConfig) (stream gap : List Int) (idss : List (List Int)), EndingIds c idss →
      c.turnGapIds stream = .ok gap → (∃ ids ∈ idss, ids <:+ stream) → gap = [] := by
  intro h
  have hgap := h (Streams.markerConfig ["X"]) [2] [5] [[]] (.cons rfl .nil) rfl
    ⟨[], List.mem_singleton_self _, List.nil_suffix⟩
  cases hgap

end RolloutProxy
