/-
  File:      RolloutProxy/Reasoning/Unfinished.lean
  Subject:   UNFINISHED REASONING: a completion that opens a `<think>` and never closes it.

  * Nothing in front of the opener can hide it: as long as no `<tool_call>` was met the scanner is
    outside every call, and comes to the opener (`markers_opener`).
  * Behind the opener nothing closes it, since a closing marker that is yielded stands in the text.
  * So the text behind the opener is dropped, with every call in it (`unfinished_dropped`).
-/
import RolloutProxy.Reasoning.Front
import RolloutProxy.ToolParser.Dialects

namespace RolloutProxy.Reasoning

/-! ## 1. In front of the opener -/

/-- **The opener is the first marker.** -/
theorem markers_opener (isAlnum : Char → Bool) {p r : List Char} (hp : NoMarkup p) :
    ∃ ms, reasoningMarkers isAlnum (p ++ thinkOpen ++ r) = ⟨p.length, p.length + 7, true⟩ :: ms := by
  obtain ⟨q, -, hreach⟩ := Before.yields isAlnum true rfl (Before.initial (p ++ thinkOpen ++ r) p)
    (quotedSpanEnds_spec isAlnum (p ++ thinkOpen ++ r)) hp
  exact ⟨_, hreach.markers⟩

/-! ## 2. Behind the opener -/

section Behind

variable (isAlnum : Char → Bool) {p r : List Char}

/-- Markers that only open keep one span open to the end of the text. -/
theorem spansFrom_opening (text : List Char) (start : Nat) : ∀ (ms : List Marker) (body : Nat),
    (∀ m ∈ ms, m.opens = true) →
      ∃ body', spansFrom text (some start) body false ms = [⟨start, body', none, text.length⟩]
  | [], body, _ => ⟨body, rfl⟩
  | m :: ms, body, h => by
      obtain ⟨body', hb⟩ := spansFrom_opening text start ms m.stop
        fun m' hm' => h m' (List.mem_cons_of_mem _ hm')
      refine ⟨body', ?_⟩
      unfold spansFrom
      rw [if_pos (h m List.mem_cons_self)]
      exact hb

/-- Nothing closes reasoning that holds no closing tag. -/
theorem no_closer (hp : NoMarkup p) (hr : ¬ thinkClose <:+: r) :
    ¬ thinkClose <:+: p ++ thinkOpen ++ r := by
  intro h
  rw [List.append_assoc] at h
  rcases tag_infix (by decide) h with h | h | h
  · exact hp.closer h
  · obtain ⟨s, hs⟩ := h
    cases hs
  · have h' : thinkClose <:+: ['t', 'h', 'i', 'n', 'k', '>'] ++ r := h
    obtain ⟨a, b, hab⟩ := h'
    -- the tag holds a `<` at its head only, and the rest of the opener holds none
    have hget : (['t', 'h', 'i', 'n', 'k', '>'] ++ r)[a.length]? = some '<' := by
      rw [← hab, List.append_assoc, List.getElem?_append_right le_rfl, Nat.sub_self]
      rfl
    have hlen : 6 ≤ a.length := by
      by_contra hlt
      rw [List.getElem?_append_left (by simp; omega)] at hget
      exact absurd (List.mem_of_getElem? hget) (by decide)
    refine hr ⟨a.drop 6, b, ?_⟩
    have := congrArg (List.drop 6) hab
    rwa [List.append_assoc, List.drop_append_of_le_length hlen, ← List.append_assoc,
      show List.drop 6 (['t', 'h', 'i', 'n', 'k', '>'] ++ r) = r from rfl] at this

/-- **Unfinished reasoning is one span**, from the opener to the end of the text. -/
theorem thinkSpans_unfinished (hp : NoMarkup p) (hr : ¬ thinkClose <:+: r) :
    ∃ body, thinkSpans isAlnum (p ++ thinkOpen ++ r) =
      [⟨if p.all isSpace then 0 else p.length, body, none, (p ++ thinkOpen ++ r).length⟩] := by
  obtain ⟨ms, hms⟩ := markers_opener isAlnum (r := r) hp
  have hopens : ∀ m ∈ ms, m.opens = true := by
    intro m hm
    have hmem : m ∈ Scan.markers isAlnum (p ++ thinkOpen ++ r)
        (quotedSpanEnds isAlnum (p ++ thinkOpen ++ r)) .initial := by
      show m ∈ reasoningMarkers isAlnum _
      rw [hms]
      exact List.mem_cons_of_mem _ hm
    rcases (Scan.markersFrom_stand _ .initial m hmem).2 with h | h
    · exact h.1
    · exact absurd (h.2.isInfix.trans (List.drop_suffix _ _).isInfix) (no_closer hp hr)
  obtain ⟨body, hbody⟩ := spansFrom_opening (p ++ thinkOpen ++ r)
    (if p.all isSpace then 0 else p.length) ms (p.length + 7) hopens
  refine ⟨body, ?_⟩
  unfold thinkSpans
  rw [hms, spansFrom, if_pos rfl]
  simp only [Bool.true_and, List.append_assoc, List.take_left]
  rw [← List.append_assoc]
  exact hbody

/-- What is visible of a text whose end is reasoning. -/
theorem strip_unfinished (hp : NoMarkup p) (hr : ¬ thinkClose <:+: r) :
    stripReasoning isAlnum (p ++ thinkOpen ++ r) = if p.all isSpace then [] else p := by
  obtain ⟨body, hspans⟩ := thinkSpans_unfinished isAlnum hp hr
  unfold stripReasoning
  rw [hspans]
  simp only [visible, afterSpan, region, List.drop_zero]
  by_cases hb : p.all isSpace = true
  · simp [hb]
  · have hne : p.length ≠ 0 := fun h0 => hb (by rw [List.length_eq_zero_iff.mp h0]; rfl)
    rw [if_neg hb, if_neg hb, if_neg hne, List.drop_length, if_neg (by simp), List.append_assoc,
      List.take_left]
    simp

theorem extract_unfinished (hp : NoMarkup p) (hr : ¬ thinkClose <:+: r) :
    extractReasoning isAlnum (p ++ thinkOpen ++ r) = none := by
  obtain ⟨body, hspans⟩ := thinkSpans_unfinished isAlnum hp hr
  unfold extractReasoning
  rw [hspans]

end Behind

/-- **Calls in unfinished reasoning are never dispatched**: everything from the opener on is
    dropped, and the visible prefix holds no call. -/
theorem unfinished_dropped (isAlnum : Char → Bool) (lib : ToolParser.JsonLib) (tools : Json)
    (p r : List Char) (hopener : ¬ thinkOpen <:+: p) (hcloser : ¬ thinkClose <:+: p)
    (htool : ¬ toolOpen <:+: p) (hr : ¬ thinkClose <:+: r) :
    stripReasoning isAlnum (p ++ thinkOpen ++ r) = (if p.all isSpace then [] else p) ∧
    extractReasoning isAlnum (p ++ thinkOpen ++ r) = none ∧
    ∀ d : ToolParser.BlockDialect,
      d.parseCompletion lib isAlnum (p ++ thinkOpen ++ r) tools = .ok (stripChars p, []) := by
  have hp : NoMarkup p := ⟨hopener, hcloser, htool⟩
  refine ⟨strip_unfinished isAlnum hp hr, extract_unfinished isAlnum hp hr, fun d => ?_⟩
  unfold ToolParser.BlockDialect.parseCompletion
  rw [strip_unfinished isAlnum hp hr]
  split
  · next hb =>
    rw [ToolParser.parse_no_call _ (by decide)]
    have hblank : stripChars p = [] := by simp [stripChars, dropWhile_all hb]
    rw [hblank]
    rfl
  · exact ToolParser.parse_no_call _ htool

/-- A JSON library that refuses every text. -/
def refusingJson : ToolParser.JsonLib where
  loads _ := .error .valueError
  dumps _ := .error .valueError
  dumpsFinite _ := .error .valueError
  str _ := .error .valueError

/-- A visible answer, and a complete call weighed behind it. -/
theorem unfinished_dropped_call :
    stripReasoning Char.isAlphanum ("Answer. ".toList ++ thinkOpen ++
        "\"<tool_call>\x7b\"name\":\"rm\"\x7d</tool_call>".toList) =
      (if "Answer. ".toList.all isSpace then [] else "Answer. ".toList) ∧
    extractReasoning Char.isAlphanum ("Answer. ".toList ++ thinkOpen ++
        "\"<tool_call>\x7b\"name\":\"rm\"\x7d</tool_call>".toList) = none ∧
    ∀ d : ToolParser.BlockDialect,
      d.parseCompletion refusingJson Char.isAlphanum ("Answer. ".toList ++ thinkOpen ++
        "\"<tool_call>\x7b\"name\":\"rm\"\x7d</tool_call>".toList) .null =
        .ok (stripChars "Answer. ".toList, []) :=
  unfinished_dropped Char.isAlphanum refusingJson .null _ _ (by decide) (by decide) (by decide)
    (by decide)

end RolloutProxy.Reasoning
