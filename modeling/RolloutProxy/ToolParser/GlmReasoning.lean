/-
  File:      RolloutProxy/ToolParser/GlmReasoning.lean
  Subject:   GLM'S REASONING (`GLMReasoning`, tokenization/glm5_3.py): a text is cut into its tool
             blocks and what lies between them; only the latter is read for reasoning, and a tool
             block ends reasoning that is still open in front of it.

  * `segments_placed`: a text put together from blocks is cut where they were joined.
  * `strip_reasoned`, `extract_reasoned`: one think block in front of a text without markup.
-/
import RolloutProxy.ToolParser.Completion
import RolloutProxy.ToolParser.Composed
import RolloutProxy.Reasoning.Arguments

namespace RolloutProxy.ToolParser

open Reasoning

/-! ## 1. Segments -/

/-- `text.rfind(a) > text.rfind(b)`; a text that does not occur is at -1. -/
def lastBehind (a b text : List Char) : Bool :=
  match rfind a text 0 text.length, rfind b text 0 text.length with
  | some i, some j => j < i
  | some _, none => true
  | none, _ => false

/-- Reasoning that is open at a tool block is closed there. -/
def closeImplicit (part : List Char) : List Char :=
  if lastBehind thinkOpen thinkClose part then part ++ thinkClose else part

/-- The loop of `_segments`; `true` marks a tool block. A turn takes a block out of the text, so
    the length of the text bounds the turns. -/
def segmentsFrom (text : List Char) : Nat → Nat → List (List Char × Bool)
  | 0, pos => [(text.drop pos, false)]
  | fuel + 1, pos =>
    match find toolOpen text pos with
    | none => [(text.drop pos, false)]
    | some start =>
      (closeImplicit (region text pos start), false) ::
        match find toolClose text (start + toolOpen.length) with
        | none => [(text.drop start, true)]
        | some stop =>
          (region text start (stop + toolClose.length), true) ::
            segmentsFrom text fuel (stop + toolClose.length)

/-- `_segments`. -/
def segments (text : List Char) : List (List Char × Bool) := segmentsFrom text text.length 0

section Parser

variable (isAlnum : Char → Bool)

/-- `GLMReasoning.strip`. -/
def glmStrip (text : List Char) : List Char :=
  (segments text).flatMap fun s => if s.2 then s.1 else stripReasoning isAlnum s.1

/-- `GLMReasoning.extract`. -/
def glmExtract (text : List Char) : Option (List Char) :=
  match (segments text).find? fun s => !s.2 && (find thinkClose s.1 0).isSome with
  | some s => extractReasoning isAlnum s.1
  | none => none

/-- `GLMReasoning`. -/
def glmReasoning : ReasoningParser := ⟨glmStrip isAlnum, glmExtract isAlnum⟩

end Parser

/-! ## 2. The last occurrence -/

theorem find_isSome {pat text : List Char} (hne : pat ≠ []) :
    (find pat text 0).isSome = true ↔ pat <:+: text := by
  cases h : find pat text 0 with
  | none =>
    refine iff_of_false Bool.false_ne_true ?_
    rintro ⟨a, b, rfl⟩
    refine find_none hne h a.length (Nat.zero_le _) ?_
    rw [List.append_assoc, List.drop_left]
    exact List.prefix_append pat b
  | some i => exact iff_of_true rfl ((find_some h).2.1.isInfix.trans (List.drop_suffix _ _).isInfix)

/-- The last occurrence is behind every other. -/
theorem rfind_ge {pat text : List Char} {k : Nat} (hne : pat ≠ []) (h : pat <+: text.drop k) :
    ∃ j, rfind pat text 0 text.length = some j ∧ k ≤ j := by
  have hlen := length_le_of_at hne h
  have hpos := List.length_pos_iff.mpr hne
  have hmem : k ∈ (List.range text.length).filter fun i =>
      decide (0 ≤ i) && pat.isPrefixOf (region text i text.length) := by
    refine List.mem_filter.mpr ⟨List.mem_range.mpr (by omega), ?_⟩
    unfold region
    rw [List.take_length]
    simpa using h
  have hsorted := (List.pairwise_lt_range (n := text.length)).filter fun i =>
      decide (0 ≤ i) && pat.isPrefixOf (region text i text.length)
  unfold rfind
  generalize (List.range text.length).filter _ = l at hmem hsorted
  obtain ⟨m, j, rfl⟩ := List.eq_nil_or_concat l |>.resolve_left (List.ne_nil_of_mem hmem)
  rw [List.concat_eq_append] at hmem hsorted ⊢
  refine ⟨j, List.getLast?_concat, ?_⟩
  rcases List.mem_append.mp hmem with hk | hk
  · exact ((List.pairwise_append.mp hsorted).2.2 k hk j List.mem_cons_self).le
  · rw [List.mem_singleton.mp hk]

theorem rfind_isInfix {pat text : List Char} {i : Nat} (h : rfind pat text 0 text.length = some i) :
    pat <+: text.drop i := by
  have hat := (rfind_some h).2.2
  unfold region at hat
  rwa [List.take_length] at hat

theorem rfind_none {pat text : List Char} (h : ¬ pat <:+: text) :
    rfind pat text 0 text.length = none := by
  cases hr : rfind pat text 0 text.length with
  | none => rfl
  | some i => exact absurd ((rfind_isInfix hr).isInfix.trans (List.drop_suffix _ _).isInfix) h

/-- A text without an opener is not closed. -/
theorem closeImplicit_none {part : List Char} (h : ¬ thinkOpen <:+: part) :
    closeImplicit part = part := by
  unfold closeImplicit lastBehind
  rw [rfind_none h]
  rfl

/-- What is skipped holds no occurrence. -/
theorem infix_behind {t l m : List Char} (hl : Skips t l) (h : t <:+: l ++ m) : t <:+: m := by
  obtain ⟨a, b, hab⟩ := h
  have hat : t <+: (l ++ m).drop a.length := by
    rw [← hab, List.append_assoc, List.drop_left]
    exact List.prefix_append t b
  rcases Nat.lt_or_ge a.length l.length with hlt | hge
  · exact absurd hat (hl m a.length hlt)
  · rw [show a.length = l.length + (a.length - l.length) by omega, ← List.drop_drop,
      List.drop_left] at hat
    exact hat.isInfix.trans (List.drop_suffix _ _).isInfix

/-- A tag does not occur in texts without it, joined by another tag. -/
theorem not_infix_joined {t t' p q : List Char} (ht : t ∈ literalTags) (ht' : t' ∈ literalTags)
    (hne : ¬ t <+: t') (hp : ¬ t <:+: p) (hq : ¬ t <:+: q) : ¬ t <:+: p ++ t' ++ q := by
  intro h
  obtain ⟨tail, rfl, htail⟩ := literalTag_cons ht'
  obtain ⟨tail₀, rfl, -⟩ := literalTag_cons ht
  rw [List.append_assoc, List.cons_append] at h
  rcases tag_infix (literalTags_tail _ ht).2 h with h | h | h
  · exact hp h
  · refine hne ?_
    by_cases hlen : ('<' :: tail₀).length ≤ ('<' :: tail).length
    · exact List.prefix_of_prefix_length_le h (List.prefix_append ('<' :: tail) q) hlen
    · -- a tag that starts another one is no longer than it
      exfalso
      have hstart : '<' :: tail <+: '<' :: tail₀ :=
        List.prefix_of_prefix_length_le (List.prefix_append ('<' :: tail) q) h (by omega)
      have hall : ∀ s ∈ literalTags, ∀ s' ∈ literalTags, s <+: s' → s = s' := by decide
      rw [hall _ ht' _ ht hstart] at hlen
      exact hlen le_rfl
  · exact hq (infix_behind (skips_of_notMem htail) h)

/-! ## 3. Reasoning in front -/

section Reasoned

variable (isAlnum : Char → Bool) {r c : List Char}

/-- The markers of a text that starts with reasoning. -/
theorem reasoned_markers (hr : NoMarkup r) (hc : NoMarkup c) :
    reasoningMarkers isAlnum (reasoned r ++ c) =
      [⟨0, 7, true⟩, ⟨7 + r.length, 15 + r.length, false⟩] := by
  have hends := quotedSpanEnds_spec isAlnum (reasoned r ++ c)
  unfold reasoningMarkers
  generalize quotedSpanEnds isAlnum (reasoned r ++ c) = ends at hends
  have hopen : reasoned r ++ c = [] ++ boundary true ++ (r ++ thinkClose ++ c) := by
    simp only [reasoned, boundary, if_true, List.append_assoc, List.nil_append]
  obtain ⟨q₁, hq₁, hreach₁⟩ := Before.yields isAlnum true hopen (Before.initial _ []) hends
    (NoMarkup.of_notMem (by simp))
  have hclose : reasoned r ++ c = (thinkOpen ++ r) ++ boundary false ++ c := by
    simp only [reasoned, boundary, Bool.false_eq_true, if_false, List.append_assoc]
  have hlen : (thinkOpen ++ r).length = 7 + r.length := List.length_append
  have hb : Before (reasoned r ++ c) (thinkOpen ++ r)
      (Scan.thinkTag { q₁ with pos := 0 + 7 } true) := hq₁.behind true (by omega)
  obtain ⟨q₂, -, hreach₂⟩ := Before.yields isAlnum false hclose hb hends (by
    show NoMarkup ((thinkOpen ++ r).drop (0 + 7))
    rw [show 0 + 7 = thinkOpen.length from rfl, List.drop_left]
    exact hr)
  have hstop : (thinkOpen ++ r).length + (boundary false).length = (reasoned r).length := by
    rw [hlen, reasoned_length]
    show 7 + r.length + 8 = _
    omega
  have hrest : (reasoned r ++ c).drop (reasoned r).length = c := List.drop_left
  have hbehind : Scan.markers isAlnum (reasoned r ++ c) ends (Scan.thinkTag { q₂ with
      pos := (thinkOpen ++ r).length + (boundary false).length } false) = [] :=
    Scan.markers_nil hstop.ge (by rw [hrest]; exact hc.opener) (by rw [hrest]; exact hc.closer)
  rw [(hreach₁.trans hreach₂).markers, hbehind, hstop, hlen, reasoned_length]
  rfl

theorem reasoned_spans (hr : NoMarkup r) (hc : NoMarkup c) : thinkSpans isAlnum (reasoned r ++ c) =
    [⟨0, 7, some (7 + r.length), 15 + r.length⟩] := by
  unfold thinkSpans
  rw [reasoned_markers isAlnum hr hc]
  rfl

/-- **A think block in front is cut**, with the line breaks behind it. -/
theorem strip_reasoned (hr : NoMarkup r) (hc : NoMarkup c) :
    stripReasoning isAlnum (reasoned r ++ c) = c.dropWhile (· == '\n') := by
  have hrest : (reasoned r ++ c).drop (15 + r.length) = c := by
    rw [← reasoned_length, List.drop_left]
  have hdrop : ∀ l : List Char, l.drop (l.takeWhile (· == '\n')).length = l.dropWhile (· == '\n') :=
    fun l => by
      conv_lhs => rw [← List.takeWhile_append_dropWhile (p := (· == '\n')) (l := l)]
      rw [List.drop_append_of_le_length (by simp), List.takeWhile_append_dropWhile]
      simp
  unfold stripReasoning
  rw [reasoned_spans isAlnum hr hc]
  simp only [visible, afterSpan, if_pos, region, List.take_zero, List.drop_nil, List.nil_append]
  rw [← List.drop_drop, hrest, hdrop]

/-- **What is extracted is the reasoning**, stripped. -/
theorem extract_reasoned (hr : NoMarkup r) (hc : NoMarkup c) :
    extractReasoning isAlnum (reasoned r ++ c) =
      if stripChars r = [] then none else some (stripChars r) := by
  have hbody : region (reasoned r ++ c) 7 (7 + r.length) = r :=
    region_middle thinkOpen r (thinkClose ++ c) (by simp only [reasoned, List.append_assoc])
  unfold extractReasoning
  rw [reasoned_spans isAlnum hr hc]
  simp only [hbody]
  cases stripChars r with
  | nil => rfl
  | cons c l => rfl

/-- A text without think tags is kept. -/
theorem strip_plain (hc : NoMarkup c) : stripReasoning isAlnum c = c := by
  have hmarkers : reasoningMarkers isAlnum c = [] :=
    Scan.markers_nil (Nat.zero_le _) hc.opener hc.closer
  unfold stripReasoning thinkSpans
  rw [hmarkers]
  rfl

end Reasoned

/-! ## 4. Texts of blocks -/

section Placed

variable {α : Type} {text tail : List Char} {gap body : α → List Char}

/-- Behind the last call nothing is cut. -/
theorem segmentsFrom_rest {pos : Nat} (h : ¬ toolOpen <:+: text.drop pos) (fuel : Nat) :
    segmentsFrom text fuel pos = [(text.drop pos, false)] := by
  have hnone : find toolOpen text pos = none := by
    refine find_eq_none fun k hk hp => h ?_
    rw [show k = pos + (k - pos) by omega, ← List.drop_drop] at hp
    exact hp.isInfix.trans (List.drop_suffix _ _).isInfix
  cases fuel with
  | zero => rfl
  | succ fuel => rw [segmentsFrom, hnone]

/-- **A text of blocks is cut where they were joined**, by induction on the blocks. -/
theorem segments_placed (htail : ¬ toolOpen <:+: tail) :
    ∀ (items : List α) (pre : List Char) (fuel : Nat), items.length ≤ fuel →
      (∀ a ∈ items, SkipsTo toolOpen (gap a) ∧ SkipsTo toolClose (body a)) →
      text = pre ++ (items.flatMap fun a => chunkText (gap a) (body a)) ++ tail →
        segmentsFrom text fuel pre.length = (items.flatMap fun a =>
          [(closeImplicit (gap a), false), (toolOpen ++ body a ++ toolClose, true)]) ++
            [(tail, false)]
  | [], pre, fuel, _, _, htext => by
      rw [List.flatMap_nil, List.append_nil] at htext
      have hrest : text.drop pre.length = tail := by rw [htext, List.drop_left]
      rw [segmentsFrom_rest (hrest.symm ▸ htail), hrest]
      rfl
  | a :: items, pre, fuel, hfuel, hitems, htext => by
      obtain ⟨ha, hrest⟩ := List.forall_mem_cons.mp hitems
      obtain ⟨fuel, rfl⟩ : ∃ n, fuel = n + 1 := ⟨fuel - 1, by rw [List.length_cons] at hfuel; omega⟩
      have hsplit : text = pre ++ chunkText (gap a) (body a) ++
          ((items.flatMap fun a => chunkText (gap a) (body a)) ++ tail) := by
        rw [htext]
        simp only [List.flatMap_cons, List.append_assoc]
      obtain ⟨b, hb, hstart, hstop, -⟩ := nextBlock_chunk ha.1 ha.2 hsplit
      have hnext := segments_placed htail items (pre ++ chunkText (gap a) (body a)) fuel
        (by rw [List.length_cons] at hfuel; omega) hrest
        (hsplit.trans (by simp only [List.append_assoc]))
      have hgap : region text pre.length b.start = gap a := by
        have := region_middle pre (gap a) (toolOpen ++ body a ++ toolClose ++
          ((items.flatMap fun a => chunkText (gap a) (body a)) ++ tail))
          (hsplit.trans (by simp only [chunkText, List.append_assoc]))
        rwa [← List.length_append, ← hstart] at this
      have hblock : region text b.start (b.stop + toolClose.length) =
          toolOpen ++ body a ++ toolClose := by
        have := region_middle (pre ++ gap a) (toolOpen ++ body a ++ toolClose)
          ((items.flatMap fun a => chunkText (gap a) (body a)) ++ tail)
          (hsplit.trans (by simp only [chunkText, List.append_assoc]))
        rw [← List.length_append, ← hstart] at this
        rw [hstop, ← this]
        simp only [chunkText, List.append_assoc]
      unfold nextBlock at hb
      split at hb
      · cases hb
      · next start hfind =>
        split at hb
        · cases hb
        · next stop hfound =>
          cases hb
          simp only at hstop hgap hblock
          rw [segmentsFrom, hfind]
          simp only [hfound]
          rw [hgap, hblock, hstop, hnext, List.flatMap_cons]
          rfl

end Placed

end RolloutProxy.ToolParser
