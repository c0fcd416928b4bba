/-
  File:      RolloutProxy/Reasoning/Quotes.lean
  Subject:   QUOTED SPANS (`_quoted_span_ends`, tokenization/base.py): inline code spans, fenced
             examples and prose quotes, each opener with the end of its span.

  The three passes are folds over the delimiters of the whole text. A fence closes every pending
  fence of its kind that is no longer than itself, so the heap of the source is a list that is
  filtered. `quotedSpanEnds_spec` says where a span can end: behind a quote or a backtick, at the
  end of a line, or in front of a think tag.
-/
import RolloutProxy.Reasoning.Tokens

namespace RolloutProxy.Reasoning

/-! ## 1. Delimiters -/

/-- `_CODE_DELIMITERS.finditer`: the runs of backticks with their positions and lengths; `start` is
    the start of the run that reaches position `i`. -/
def backtickRuns (i : Nat) (start : Option Nat) : List Char → List (Nat × Nat)
  | [] =>
    match start with
    | some s => [(s, i - s)]
    | none => []
  | c :: l =>
    if c = '`' then backtickRuns (i + 1) (some (start.getD i)) l
    else
      match start with
      | some s => (s, i - s) :: backtickRuns (i + 1) none l
      | none => backtickRuns (i + 1) none l

/-- A match of `_CODE_FENCES`. -/
structure Fence where
  /-- `match.start(1)` -/
  start : Nat
  char : Char
  length : Nat
  info : List Char
  /-- `match.end()` -/
  stop : Nat

/-- The start of a line, or the position behind a think tag. -/
def fenceMayStart (text : List Char) (i : Nat) : Bool :=
  i == 0 || text[i - 1]? == some '\n' || thinkOpen.isSuffixOf (text.take i) ||
    thinkClose.isSuffixOf (text.take i)

/-- `_CODE_FENCES` at position `i`. -/
def fenceAt (text : List Char) (i : Nat) : Option Fence :=
  if fenceMayStart text i then
    let spaces := ((text.drop i).takeWhile (· == ' ')).length
    match (text.drop i).drop spaces with
    | [] => none
    | c :: l =>
      let run := (l.takeWhile (· == c)).length + 1
      if spaces ≤ 3 && (c == '`' || c == '~') && 3 ≤ run then
        let info := ((c :: l).drop run).takeWhile (· != '\n')
        some ⟨i + spaces, c, run, info, i + spaces + run + info.length⟩
      else none
  else none

/-- `_CODE_FENCES.finditer` from position `i` on. -/
def fencesFrom (text : List Char) : Nat → Nat → List Fence
  | 0, _ => []
  | fuel + 1, i =>
    match fenceAt text i with
    | some f => f :: fencesFrom text fuel f.stop
    | none => fencesFrom text fuel (i + 1)

/-- `text.split(sep, 1)[0]`. -/
def splitHead (sep : List Char) : List Char → List Char
  | [] => []
  | c :: l => if sep.isPrefixOf (c :: l) then [] else c :: splitHead sep l

/-- The info string of a fence, in front of the think tags. -/
def Fence.ownInfo (f : Fence) : List Char := splitHead thinkClose (splitHead thinkOpen f.info)

/-- `_PROSE_QUOTES.finditer`: the quotes that are not escaped. -/
def proseQuotes : Nat → List Char → List (Nat × Char)
  | _, [] => []
  | i, '\\' :: _ :: l => proseQuotes (i + 2) l
  | i, c :: l => if isQuote c then (i, c) :: proseQuotes (i + 1) l else proseQuotes (i + 1) l

/-- An apostrophe inside a word. -/
def insideWord (isAlnum : Char → Bool) (text : List Char) (start : Nat) (quote : Char) : Bool :=
  ['\'', '’', '＇'].contains quote && start != 0 &&
    (text[start - 1]?.map isAlnum).getD false && (text[start + 1]?.map isAlnum).getD false

/-! ## 2. The three passes -/

/-- Code spans: a run closes the run of its length before it. -/
def codeSpans : Dict Nat Nat → Dict Nat Nat → List (Nat × Nat) → Dict Nat Nat
  | ends, _, [] => ends
  | ends, previous, (start, size) :: rest =>
    let ends :=
      match previous.get? size with
      | some opener => ends.set opener (start + size)
      | none => ends
    codeSpans ends (previous.set size start) rest

/-- `ends[start] = end` for several starts. -/
def setAll (ends : Dict Nat Nat) (stop : Nat) (starts : List Nat) : Dict Nat Nat :=
  starts.foldl (fun ends start => ends.set start stop) ends

/-- Fenced examples; `pending` holds the character, the length and the start of each open fence. -/
def fencedExamples : Dict Nat Nat → List (Char × Nat × Nat) → List Fence → Dict Nat Nat
  | ends, _, [] => ends
  | ends, pending, f :: rest =>
    if f.char = '`' ∧ '`' ∈ f.ownInfo then fencedExamples ends pending rest
    else
      let closes := fun c : Char × Nat × Nat => c.1 = f.char ∧ c.2.1 ≤ f.length
      let blank := f.ownInfo.all isSpace
      let ends :=
        if blank then
          setAll ends (f.start + f.length + f.ownInfo.length)
            ((pending.filter fun c => closes c).map fun c => c.2.2)
        else ends
      let pending := if blank then pending.filter fun c => ¬ closes c else pending
      fencedExamples ends (pending ++ [(f.char, f.length, f.start)]) rest

/-- `ends.setdefault(opened, end)` for several openers. -/
def setDefaults (ends : Dict Nat Nat) (stop : Nat) (openers : List Nat) : Dict Nat Nat :=
  openers.foldl (fun ends opener => if ends.contains opener then ends else ends.set opener stop) ends

/-- `pending_quotes.setdefault(closer, []).append(start)` for every closer of a quote. -/
def awaitClosers (pending : Dict Char (List Nat)) (start : Nat) (closers : List Char) :
    Dict Char (List Nat) :=
  closers.foldl (fun pending c => pending.set c ((pending.get? c).getD [] ++ [start])) pending

/-- Prose quotes: a closer ends every opener that waits for it. -/
def quotations (isAlnum : Char → Bool) (text : List Char) :
    Dict Nat Nat → Dict Char (List Nat) → List (Nat × Char) → Dict Nat Nat
  | ends, _, [] => ends
  | ends, pending, (start, quote) :: rest =>
    if insideWord isAlnum text start quote then quotations isAlnum text ends pending rest
    else
      quotations isAlnum text (setDefaults ends (start + 1) ((pending.get? quote).getD []))
        (awaitClosers (pending.erase quote) start (closersOf quote)) rest

/-- `_quoted_span_ends`. -/
def quotedSpanEnds (isAlnum : Char → Bool) (text : List Char) : Dict Nat Nat :=
  quotations isAlnum text
    (fencedExamples (codeSpans ∅ ∅ (backtickRuns 0 none text)) []
      (fencesFrom text (text.length + 1) 0))
    ∅ (proseQuotes 0 text)

/-! ## 3. Where a span ends -/

/-- A position behind a quote or a backtick, at the end of a line, or in front of a think tag. -/
def SpanEnd (text : List Char) (e : Nat) : Prop :=
  (∃ i c, e = i + 1 ∧ text[i]? = some c ∧ (isQuote c = true ∨ c = '`')) ∨
    text.length ≤ e ∨ text[e]? = some '\n' ∨ thinkOpen <+: text.drop e ∨ thinkClose <+: text.drop e

/-- Every span of the table ends at such a position. -/
def SpanEnds (text : List Char) (ends : Dict Nat Nat) : Prop :=
  ∀ start e, ends.get? start = some e → SpanEnd text e

/-- Every span of the table ends at a position of a kind. -/
def EndsIn (P : Nat → Prop) (ends : Dict Nat Nat) : Prop :=
  ∀ start e, ends.get? start = some e → P e

section EndsIn

variable {P : Nat → Prop}

theorem EndsIn.set {ends : Dict Nat Nat} (h : EndsIn P ends) (start : Nat) {e : Nat} (he : P e) :
    EndsIn P (ends.set start e) := by
  intro s e' hs
  rw [Dict.get?_set] at hs
  split at hs
  · cases hs; exact he
  · exact h s e' hs

theorem EndsIn.setAll {e : Nat} (he : P e) (starts : List Nat) :
    ∀ {ends : Dict Nat Nat}, EndsIn P ends → EndsIn P (setAll ends e starts) := by
  induction starts with
  | nil => exact fun h => h
  | cons s starts ih => exact fun h => ih (h.set s he)

theorem EndsIn.setDefaults {e : Nat} (he : P e) (openers : List Nat) :
    ∀ {ends : Dict Nat Nat}, EndsIn P ends → EndsIn P (setDefaults ends e openers) := by
  induction openers with
  | nil => exact fun h => h
  | cons s openers ih =>
      intro ends h
      refine ih ?_
      dsimp only
      split
      · exact h
      · exact h.set s he

/-- A code span ends where one of its runs does. -/
theorem codeSpans_ends : ∀ (runs : List (Nat × Nat)) (ends previous : Dict Nat Nat),
    (∀ p ∈ runs, P (p.1 + p.2)) → EndsIn P ends → EndsIn P (codeSpans ends previous runs)
  | [], _, _, _, h => h
  | (start, size) :: rest, ends, previous, hruns, h => by
      unfold codeSpans
      refine codeSpans_ends rest _ _ (fun p hp => hruns p (List.mem_cons_of_mem _ hp)) ?_
      split
      · exact h.set _ (hruns _ List.mem_cons_self)
      · exact h

/-- A fenced example ends where the info string of a fence does. -/
theorem fencedExamples_ends : ∀ (fences : List Fence) (ends : Dict Nat Nat)
    (pending : List (Char × Nat × Nat)),
      (∀ f ∈ fences, P (f.start + f.length + f.ownInfo.length)) → EndsIn P ends →
        EndsIn P (fencedExamples ends pending fences)
  | [], _, _, _, h => h
  | f :: rest, ends, pending, hf, h => by
      have hrest : ∀ g ∈ rest, P (g.start + g.length + g.ownInfo.length) :=
        fun g hg => hf g (List.mem_cons_of_mem _ hg)
      unfold fencedExamples
      split
      · exact fencedExamples_ends rest _ _ hrest h
      · refine fencedExamples_ends rest _ _ hrest ?_
        split
        · exact h.setAll (hf f List.mem_cons_self) _
        · exact h

/-- A quotation ends behind a quote. -/
theorem quotations_ends (isAlnum : Char → Bool) {text : List Char} :
    ∀ (quotes : List (Nat × Char)) (ends : Dict Nat Nat) (pending : Dict Char (List Nat)),
      (∀ p ∈ quotes, P (p.1 + 1)) → EndsIn P ends →
        EndsIn P (quotations isAlnum text ends pending quotes)
  | [], _, _, _, h => h
  | (start, quote) :: rest, ends, pending, hq, h => by
      have hrest : ∀ p ∈ rest, P (p.1 + 1) := fun p hp => hq p (List.mem_cons_of_mem _ hp)
      unfold quotations
      split
      · exact quotations_ends isAlnum rest _ _ hrest h
      · exact quotations_ends isAlnum rest _ _ hrest (h.setDefaults (hq _ List.mem_cons_self) _)

end EndsIn

/-- Every run of backticks ends behind a backtick. -/
theorem backtickRuns_end {text : List Char} : ∀ (l : List Char) (i : Nat) (start : Option Nat),
    text.drop i = l → (∀ s, start = some s → s < i ∧ text[i - 1]? = some '`') →
      ∀ p ∈ backtickRuns i start l, ∃ j, p.1 + p.2 = j + 1 ∧ text[j]? = some '`'
  | [], i, start, _, hs, p, hp => by
      unfold backtickRuns at hp
      split at hp
      · next s =>
        obtain ⟨hlt, hc⟩ := hs s rfl
        rw [List.mem_singleton] at hp
        subst hp
        exact ⟨i - 1, by simp only; omega, hc⟩
      · cases hp
  | c :: l, i, start, hl, hs, p, hp => by
      have hdrop : text.drop (i + 1) = l := by
        rw [← List.drop_drop, hl, List.drop_one, List.tail_cons]
      have hget : text[i]? = some c := by
        rw [← List.head?_drop, hl, List.head?_cons]
      unfold backtickRuns at hp
      split at hp
      · next hc =>
        refine backtickRuns_end l (i + 1) _ hdrop (fun s hs' => ?_) p hp
        cases start with
        | none => cases hs'; exact ⟨Nat.lt_succ_self _, by simpa [hc] using hget⟩
        | some s' =>
            cases hs'
            exact ⟨Nat.lt_succ_of_lt (hs s' rfl).1, by simpa [hc] using hget⟩
      · split at hp
        · next s =>
          rcases List.mem_cons.mp hp with rfl | hp
          · obtain ⟨hlt, hc⟩ := hs s rfl
            exact ⟨i - 1, by simp only; omega, hc⟩
          · exact backtickRuns_end l (i + 1) none hdrop nofun p hp
        · exact backtickRuns_end l (i + 1) none hdrop nofun p hp

theorem splitHead_le (sep : List Char) : ∀ l, splitHead sep l <+: l
  | [] => List.nil_prefix
  | c :: l => by
      unfold splitHead
      split
      · exact List.nil_prefix
      · exact (List.prefix_cons_inj c).mpr (splitHead_le sep l)

/-- A text is split at a separator, or not at all. -/
theorem splitHead_cases (sep : List Char) : ∀ l,
    splitHead sep l = l ∨ sep <+: l.drop (splitHead sep l).length
  | [] => .inl rfl
  | c :: l => by
      unfold splitHead
      split
      · next h => exact .inr (List.isPrefixOf_iff_prefix.mp h)
      · rcases splitHead_cases sep l with h | h
        · exact .inl (by rw [h])
        · exact .inr (by simpa using h)

theorem drop_le_drop {α : Type} {a b : List α} (h : a <+: b) (n : Nat) : a.drop n <+: b.drop n := by
  obtain ⟨s, rfl⟩ := h
  rcases le_or_gt n a.length with hn | hn
  · rw [List.drop_append_of_le_length hn]
    exact List.prefix_append _ _
  · rw [List.drop_of_length_le hn.le]
    exact List.nil_prefix

/-- Behind the info string of a fence comes a think tag, or the end of the line. -/
theorem Fence.ownInfo_end (f : Fence) :
    f.ownInfo = f.info ∨ thinkOpen <+: f.info.drop f.ownInfo.length ∨
      thinkClose <+: f.info.drop f.ownInfo.length := by
  unfold Fence.ownInfo
  rcases splitHead_cases thinkClose (splitHead thinkOpen f.info) with hc | hc
  · rw [hc]
    rcases splitHead_cases thinkOpen f.info with ho | ho
    · exact .inl ho
    · exact .inr (.inl ho)
  · exact .inr (.inr (hc.trans (drop_le_drop (splitHead_le thinkOpen f.info) _)))

/-- What follows the run of a fence: its info string, up to the end of the line. -/
structure Fence.Occurs (text : List Char) (f : Fence) : Prop where
  info : f.info <+: text.drop (f.start + f.length)
  ended : text.length ≤ f.start + f.length + f.info.length ∨
    text[f.start + f.length + f.info.length]? = some '\n'

theorem dropWhile_head {α : Type} {p : α → Bool} {l : List α} {c : α}
    (h : (l.drop (l.takeWhile p).length)[0]? = some c) : p c = false := by
  rw [List.getElem?_drop, Nat.add_zero] at h
  induction l with
  | nil => simp at h
  | cons a l ih =>
      by_cases ha : p a = true
      · rw [List.takeWhile_cons_of_pos ha, List.length_cons, List.getElem?_cons_succ] at h
        exact ih h
      · rw [List.takeWhile_cons_of_neg ha, List.length_nil, List.getElem?_cons_zero] at h
        cases h
        simpa using ha

/-- A line ends in front of a newline, or with the text. -/
theorem line_ends (text : List Char) (j : Nat) :
    text.length ≤ j + ((text.drop j).takeWhile (· != '\n')).length ∨
      text[j + ((text.drop j).takeWhile (· != '\n')).length]? = some '\n' := by
  rcases Nat.lt_or_ge (j + ((text.drop j).takeWhile (· != '\n')).length) text.length with hlt | hge
  · right
    have hget : ((text.drop j).drop ((text.drop j).takeWhile (· != '\n')).length)[0]? =
        text[j + ((text.drop j).takeWhile (· != '\n')).length]? := by
      rw [List.drop_drop, List.getElem?_drop, Nat.add_zero]
    rw [List.getElem?_eq_getElem hlt] at hget ⊢
    simpa using dropWhile_head hget
  · exact .inl hge

theorem fenceAt_occurs {text : List Char} {i : Nat} {f : Fence} (h : fenceAt text i = some f) :
    f.Occurs text := by
  unfold fenceAt at h
  split at h
  · simp only at h
    generalize ((text.drop i).takeWhile (· == ' ')).length = k at h
    split at h
    · cases h
    · next c l hl =>
      split at h
      · cases h
        rw [List.drop_drop] at hl
        have hinfo : ∀ run, (c :: l).drop run = text.drop (i + k + run) := fun run => by
          rw [← List.drop_drop, hl]
        refine ⟨?_, ?_⟩
        · show List.takeWhile _ ((c :: l).drop ((l.takeWhile (· == c)).length + 1)) <+:
            text.drop (i + k + ((l.takeWhile (· == c)).length + 1))
          rw [hinfo]
          exact List.takeWhile_prefix _
        · show text.length ≤ i + k + ((l.takeWhile (· == c)).length + 1) +
              (((c :: l).drop ((l.takeWhile (· == c)).length + 1)).takeWhile (· != '\n')).length ∨
            text[i + k + ((l.takeWhile (· == c)).length + 1) +
              (((c :: l).drop ((l.takeWhile (· == c)).length + 1)).takeWhile (· != '\n')).length]?
              = some '\n'
          rw [hinfo]
          exact line_ends text _
      · cases h
  · cases h

theorem fencesFrom_occurs {text : List Char} : ∀ (fuel i : Nat), ∀ f ∈ fencesFrom text fuel i,
    f.Occurs text
  | 0, _, f, hf => by cases hf
  | fuel + 1, i, f, hf => by
      unfold fencesFrom at hf
      split at hf
      · next g hg =>
        rcases List.mem_cons.mp hf with rfl | hf
        · exact fenceAt_occurs hg
        · exact fencesFrom_occurs fuel _ f hf
      · exact fencesFrom_occurs fuel _ f hf

/-- A closing fence ends its examples at the end of its line, or in front of a think tag. -/
theorem Fence.Occurs.spanEnd {text : List Char} {f : Fence} (h : f.Occurs text) :
    SpanEnd text (f.start + f.length + f.ownInfo.length) := by
  have htag : ∀ {t : List Char}, t <+: f.info.drop f.ownInfo.length →
      t <+: text.drop (f.start + f.length + f.ownInfo.length) := fun ht => by
    rw [← List.drop_drop]
    exact ht.trans (drop_le_drop h.info _)
  rcases f.ownInfo_end with he | he | he
  · rw [he]
    rcases h.ended with hl | hl
    · exact .inr (.inl hl)
    · exact .inr (.inr (.inl hl))
  · exact .inr (.inr (.inr (.inl (htag he))))
  · exact .inr (.inr (.inr (.inr (htag he))))

/-- The quotes that are found are there. -/
theorem proseQuotes_occur {text : List Char} : ∀ (l : List Char) (i : Nat), text.drop i = l →
    ∀ p ∈ proseQuotes i l, text[p.1]? = some p.2 ∧ isQuote p.2 = true := by
  intro l i
  induction i, l using proseQuotes.induct with
  | case1 i => intro _ p hp; simp [proseQuotes] at hp
  | case2 i d l ih =>
      intro hl p hp
      rw [proseQuotes] at hp
      refine ih ?_ p hp
      rw [← List.drop_drop, hl]
      rfl
  | case3 i c l hne hq ih =>
      intro hl p hp
      rw [proseQuotes, if_pos hq] at hp
      · rcases List.mem_cons.mp hp with rfl | hp
        · exact ⟨by rw [← List.head?_drop, hl, List.head?_cons], hq⟩
        · refine ih ?_ p hp
          rw [← List.drop_drop, hl]
          rfl
      · exact hne
  | case4 i c l hne hq ih =>
      intro hl p hp
      rw [proseQuotes, if_neg hq] at hp
      · refine ih ?_ p hp
        rw [← List.drop_drop, hl]
        rfl
      · exact hne

/-- **What ends a span ends every span**: quotes, backticks and fences. -/
theorem quotedSpanEnds_in (isAlnum : Char → Bool) {text : List Char} {P : Nat → Prop}
    (hquote : ∀ i c, text[i]? = some c → isQuote c = true ∨ c = '`' → P (i + 1))
    (hfence : ∀ f ∈ fencesFrom text (text.length + 1) 0, P (f.start + f.length + f.ownInfo.length)) :
    EndsIn P (quotedSpanEnds isAlnum text) := by
  refine quotations_ends isAlnum _ _ _ (fun p hp => ?_) (fencedExamples_ends _ _ _ hfence
    (codeSpans_ends _ _ _ (fun p hp => ?_) fun s e h => by simp at h))
  · obtain ⟨hc, hq⟩ := proseQuotes_occur text 0 List.drop_zero p hp
    exact hquote _ _ hc (.inl hq)
  · obtain ⟨j, hj, hc⟩ := backtickRuns_end text 0 none List.drop_zero
      (fun _ hn => by cases hn) p hp
    exact hj ▸ hquote j _ hc (.inr rfl)

/-- **Where a quoted span ends.** -/
theorem quotedSpanEnds_spec (isAlnum : Char → Bool) (text : List Char) :
    SpanEnds text (quotedSpanEnds isAlnum text) :=
  quotedSpanEnds_in isAlnum (fun i c hc hq => .inl ⟨i, c, rfl, hc, hq⟩)
    fun f hf => (fencesFrom_occurs _ 0 f hf).spanEnd

end RolloutProxy.Reasoning
