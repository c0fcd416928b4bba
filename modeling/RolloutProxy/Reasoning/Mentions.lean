/-
  File:      RolloutProxy/Reasoning/Mentions.lean
  Subject:   TOOL MARKUP MENTIONED IN REASONING: `<think>` r `</think>` and an answer without any
             token, where `r` holds no think tag but headers, calls and quotes of any kind.

  * No quoted example of `r` ends behind it (`mentions_ends`), and headers, keys, XML values and
    brackets of a mention are left at `</think>` at the latest.
  * Three things run over it: an argument string that `r` does not close, a header string of which
    `r` ends in an escape, and a parameter in a quoted JSON example without a close
    (`Scan.runsOn`). The boundary is found exactly where the turn in front of it does none of them,
    which is so wherever no mention is followed by an object (`boundaryLost_of_no_object`).
-/
import RolloutProxy.Reasoning.Arguments

namespace RolloutProxy.Reasoning

/-! ## 1. Strings and escapes that are not closed -/

/-- Behind its opening quote the string is not closed. -/
def stringOpen : List Char → Bool
  | [] => true
  | '"' :: _ => false
  | '\\' :: _ :: l => stringOpen l
  | _ :: l => stringOpen l

/-- Behind its opening quote the text ends in the middle of an escape. -/
def escapeOpen : List Char → Bool
  | [] => false
  | '"' :: _ => false
  | ['\\'] => true
  | '\\' :: _ :: l => escapeOpen l
  | _ :: l => escapeOpen l

/-- A character of a string that is neither a quote nor a backslash. -/
theorem string_other {c : Char} (hq : c ≠ '"') (hb : c ≠ '\\') (l : List Char) :
    stringOpen (c :: l) = stringOpen l ∧ escapeOpen (c :: l) = escapeOpen l ∧
      stringTail (c :: l) = stringTail l + 1 := by
  refine ⟨?_, ?_, ?_⟩
  · rw [stringOpen]
    · exact hq
    · exact fun _ _ h => absurd h hb
  · rw [escapeOpen]
    · exact hq
    · exact fun h => absurd h hb
    · exact fun _ _ h => absurd h hb
  · rw [stringTail]
    · exact hq
    · exact fun _ _ h => absurd h hb

theorem stringTail_le : ∀ l : List Char, stringTail l ≤ l.length
  | [] => le_rfl
  | c :: l => by
      by_cases hq : c = '"'
      · subst hq
        exact Nat.le_add_left 1 _
      by_cases hb : c = '\\'
      · subst hb
        cases l with
        | nil => exact le_rfl
        | cons d l =>
            have := stringTail_le l
            rw [stringTail]
            simp only [List.length_cons]
            omega
      · rw [(string_other hq hb l).2.2]
        exact Nat.succ_le_succ (stringTail_le l)

/-- A string ends in `a` exactly where it is closed there. -/
theorem stringTail_append {b : List Char} (hne : b ≠ []) : ∀ a : List Char,
    stringTail (a ++ b) ≤ a.length ↔ stringOpen a = false
  | [] => by
      have hpos : 0 < stringTail b := by
        obtain ⟨c, b', rfl⟩ := List.exists_cons_of_ne_nil hne
        unfold stringTail
        split <;> first | contradiction | exact Nat.succ_pos _
      simp only [List.nil_append, List.length_nil, stringOpen]
      exact ⟨fun h => absurd h (by omega), fun h => by cases h⟩
  | c :: l => by
      by_cases hq : c = '"'
      · subst hq
        rw [List.cons_append, stringTail, stringOpen]
        exact ⟨fun _ => rfl, fun _ => Nat.le_add_left 1 _⟩
      by_cases hb : c = '\\'
      · subst hb
        cases l with
        | nil =>
            obtain ⟨d, b', rfl⟩ := List.exists_cons_of_ne_nil hne
            rw [List.cons_append, List.nil_append, stringTail]
            exact ⟨fun h => absurd h (by simp), fun h => by cases h⟩
        | cons d l =>
            have := stringTail_append hne l
            rw [List.cons_append, List.cons_append, stringTail, stringOpen, ← this]
            simp only [List.length_cons]
            omega
      · obtain ⟨hopen, -, htail⟩ := string_other hq hb l
        rw [hopen, List.cons_append, (string_other hq hb (l ++ b)).2.2,
          ← stringTail_append hne l, List.length_cons]
        omega

/-- The end of a header string in front of a think tag: in front of the tag, unless an escape takes
    its `<`. -/
theorem jsonHeaderEnd_append {b : List Char} : ∀ (a : List Char) (pos : Nat),
    ¬ thinkOpen <:+: a → ¬ thinkClose <:+: a →
      ((jsonHeaderEnd pos (a ++ thinkClose ++ b)).1 ≤ pos + a.length ↔ escapeOpen a = false)
  | [], pos, _, _ => by
      have hend : jsonHeaderEnd pos (thinkClose ++ b) = (pos, false) := by
        show jsonHeaderEnd pos ('<' :: (['/', 't', 'h', 'i', 'n', 'k', '>'] ++ b)) = _
        rw [jsonHeaderEnd]
        · rw [if_pos]
          simp [thinkOpen, thinkClose, List.isPrefixOf]
        · exact fun h => absurd h (by decide)
        · exact fun _ _ h => absurd h (by decide)
      rw [List.nil_append, hend]
      exact ⟨fun _ => rfl, fun _ => Nat.le_add_right _ _⟩
  | c :: l, pos, ho, hc => by
      have hsub : ∀ {t : List Char}, ¬ t <:+: c :: l → ¬ t <:+: l := fun h h' =>
        h (h'.trans (List.suffix_cons _ _).isInfix)
      by_cases hq : c = '"'
      · subst hq
        rw [List.cons_append, List.cons_append, jsonHeaderEnd, escapeOpen]
        exact ⟨fun _ => rfl, fun _ => by simp only [List.length_cons]; omega⟩
      by_cases hb : c = '\\'
      · subst hb
        cases l with
        | nil =>
            -- the backslash is the last character: it takes the `<` of the tag
            have hle := jsonHeaderEnd_le (pos + 2) (thinkClose.tail ++ b)
            have hstep : jsonHeaderEnd pos (['\\'] ++ thinkClose ++ b) =
                jsonHeaderEnd (pos + 2) (thinkClose.tail ++ b) := rfl
            rw [hstep]
            exact ⟨fun h => absurd h (by simp only [List.length_singleton]; omega),
              fun h => by cases h⟩
        | cons d l =>
            have := jsonHeaderEnd_append (b := b) l (pos + 2)
              (fun h => hsub ho (h.trans (List.suffix_cons _ _).isInfix))
              (fun h => hsub hc (h.trans (List.suffix_cons _ _).isInfix))
            rw [List.cons_append, List.cons_append, List.cons_append, List.cons_append,
              jsonHeaderEnd, escapeOpen, ← this]
            simp only [List.length_cons]
            omega
      · have hno : ∀ {t : List Char}, '<' ∉ t.tail → ¬ t <:+: c :: l →
            t.isPrefixOf (c :: (l ++ thinkClose ++ b)) = false := by
          intro t ht hin
          refine Bool.eq_false_iff.mpr fun hp => hin ?_
          have hp' : t <+: (c :: l) ++ '<' :: (thinkClose.tail ++ b) := by
            simpa [thinkClose] using List.isPrefixOf_iff_prefix.mp hp
          exact (isPrefix_of_append_cons ht (by simp) hp').isInfix
        have hstep : jsonHeaderEnd pos (c :: (l ++ thinkClose ++ b)) =
            jsonHeaderEnd (pos + 1) (l ++ thinkClose ++ b) := by
          rw [jsonHeaderEnd, hno (by decide) ho, hno (by decide) hc, Bool.or_false,
            if_neg Bool.false_ne_true]
          · exact hq
          · exact fun _ _ h => absurd h hb
        rw [List.cons_append, List.cons_append, hstep, (string_other hq hb l).2.1,
          ← jsonHeaderEnd_append (b := b) l (pos + 1) (hsub ho) (hsub hc), List.length_cons]
        omega

/-! ## 2. Reasoning and an answer -/

/-- An answer in which the scanner finds nothing: no think tag, no tool markup, no bracket, no quote
    and no code delimiter. -/
def Silent (w : List Char) : Prop := ∀ k, tokenAt (w.drop k) = none

theorem silent_of_lt {w : List Char} (h : ∀ k < w.length, tokenAt (w.drop k) = none) : Silent w := by
  intro k
  rcases Nat.lt_or_ge k w.length with hlt | hge
  · exact h k hlt
  · rw [List.drop_eq_nil_of_le hge]
    rfl

section Silent

variable {w : List Char} (hw : Silent w)

include hw

theorem Silent.no_tag {t : List Char} (ht : t ∈ literalTags) (k : Nat) : ¬ t <+: w.drop k := by
  intro hp
  have htok := tokenAt_literal ht hp
  rw [hw k] at htok
  cases htok

theorem Silent.no_delimiter (k : Nat) : delimiterAt (w.drop k) = none := by
  have htok := hw k
  unfold tokenAt at htok
  cases htag : tagAt (w.drop k) with
  | some t => rw [htag] at htok; cases htok
  | none => rwa [htag] at htok

theorem Silent.no_quote {i : Nat} {c : Char} (hc : w[i]? = some c) : isQuote c = false ∧ c ≠ '`' := by
  have hnone := hw.no_delimiter i
  obtain ⟨l, hl⟩ : ∃ l, w.drop i = c :: l := by
    rw [← List.head?_drop] at hc
    cases hd : w.drop i with
    | nil => rw [hd] at hc; cases hc
    | cons d l => rw [hd] at hc; cases hc; exact ⟨l, rfl⟩
  rw [hl] at hnone
  simp only [delimiterAt] at hnone
  split at hnone
  · cases hnone
  · next hq =>
    rw [Bool.not_eq_true, Bool.or_eq_false_iff] at hq
    refine ⟨hq.2, ?_⟩
    rintro rfl
    simp at hnone

/-- No fence starts in the answer. -/
theorem Silent.no_fence {c : Char} (hc : c = '`' ∨ c = '~') {n : Nat} (hn : 3 ≤ n) (i : Nat) :
    ¬ List.replicate n c <+: w.drop i := by
  rintro ⟨u, hu⟩
  obtain ⟨m, rfl⟩ : ∃ m, n = m + 3 := ⟨n - 3, by omega⟩
  have hnone := hw.no_delimiter i
  rw [← hu, List.replicate_succ, List.cons_append] at hnone
  rcases hc with rfl | rfl
  · simp [delimiterAt, isQuote, prosePairs] at hnone
  · have hrun : 3 ≤ ('~' :: (List.replicate (m + 2) '~' ++ u).takeWhile (· == '~')).length := by
      rw [List.takeWhile_append_of_pos (fun a ha => by simp [List.eq_of_mem_replicate ha])]
      simp only [List.length_cons, List.length_append, List.length_replicate]
      omega
    simp only [delimiterAt] at hnone
    rw [if_neg (by decide), if_neg (by decide), if_pos (by decide), if_pos hrun] at hnone
    cases hnone

end Silent

/-- A run of a fence stands in the text. -/
theorem fenceAt_run {text : List Char} {i : Nat} {f : Fence} (h : fenceAt text i = some f) :
    (f.char = '`' ∨ f.char = '~') ∧ 3 ≤ f.length ∧
      List.replicate f.length f.char <+: text.drop f.start := by
  unfold fenceAt at h
  split at h
  · simp only at h
    split at h
    · cases h
    · next c l hl =>
      split at h
      · next hrun =>
        cases h
        simp only [Bool.and_eq_true, Bool.or_eq_true, beq_iff_eq, decide_eq_true_eq] at hrun
        refine ⟨hrun.1.2, hrun.2, ?_⟩
        rw [List.drop_drop] at hl
        simp only
        rw [hl, List.replicate_succ, List.cons_prefix_cons]
        refine ⟨rfl, ?_⟩
        obtain ⟨-, hall⟩ := takeWhile_replicates (c := c) l
        rw [← List.eq_replicate_of_mem hall]
        exact List.takeWhile_prefix _
      · cases h
  · cases h

theorem fencesFrom_run {text : List Char} : ∀ (fuel i : Nat), ∀ f ∈ fencesFrom text fuel i,
    (f.char = '`' ∨ f.char = '~') ∧ 3 ≤ f.length ∧
      List.replicate f.length f.char <+: text.drop f.start
  | 0, _, f, hf => by cases hf
  | fuel + 1, i, f, hf => by
      unfold fencesFrom at hf
      split at hf
      · next g hg =>
        rcases List.mem_cons.mp hf with rfl | hf
        · exact fenceAt_run hg
        · exact fencesFrom_run fuel _ f hf
      · exact fencesFrom_run fuel _ f hf

/-- What is split off in front of a separator does not hold it. -/
theorem splitHead_free {sep : List Char} (hne : sep ≠ []) : ∀ l : List Char,
    ¬ sep <:+: splitHead sep l
  | [], h => hne (List.infix_nil.mp h)
  | c :: l, h => by
      unfold splitHead at h
      split at h
      · exact hne (List.infix_nil.mp h)
      · next hp =>
        rcases List.infix_cons_iff.mp h with h | h
        · exact hp (List.isPrefixOf_iff_prefix.mpr (h.trans
            ((List.prefix_cons_inj c).mpr (splitHead_le sep l))))
        · exact splitHead_free hne l h

section Boundary

variable {p w : List Char} (hw : Silent w)

include hw

/-- Behind the reasoning there is no quote and no code delimiter. -/
theorem answer_plain {i : Nat} {c : Char} (hi : p.length ≤ i)
    (hc : (p ++ thinkClose ++ w)[i]? = some c) : isQuote c = false ∧ c ≠ '`' := by
  rw [List.append_assoc, List.getElem?_append_right hi] at hc
  rcases Nat.lt_or_ge (i - p.length) thinkClose.length with hlt | hge
  · rw [List.getElem?_append_left hlt] at hc
    have := (literalTags_chars thinkClose (by decide)).2 c (List.mem_of_getElem? hc)
    exact ⟨this.1, this.2.1⟩
  · rw [List.getElem?_append_right hge] at hc
    exact hw.no_quote hc

/-- A fence stands in the reasoning. -/
theorem fence_in_reasoning {f : Fence} (hchar : f.char = '`' ∨ f.char = '~') (hlen : 3 ≤ f.length)
    (hrun : List.replicate f.length f.char <+: (p ++ thinkClose ++ w).drop f.start) :
    f.start + f.length ≤ p.length := by
  have hget : ∀ j, j < f.length → (p ++ thinkClose ++ w)[f.start + j]? = some f.char := by
    intro j hj
    obtain ⟨u, hu⟩ := hrun
    rw [← List.getElem?_drop, ← hu, List.getElem?_append_left (by simpa using hj),
      List.getElem?_replicate, if_pos hj]
  have htag : ∀ j, j < thinkClose.length → (p ++ thinkClose ++ w)[p.length + j]? ≠ some f.char := by
    intro j hj hc
    rw [List.append_assoc, List.getElem?_append_right (Nat.le_add_right _ _),
      Nat.add_sub_cancel_left, List.getElem?_append_left hj] at hc
    have hmem := List.mem_of_getElem? hc
    rcases hchar with h | h <;> rw [h] at hmem <;> revert hmem <;> decide
  have hcl : thinkClose.length = 8 := rfl
  by_contra hover
  rcases Nat.lt_or_ge f.start (p.length + 8) with hlt | hge
  · rcases Nat.lt_or_ge f.start p.length with hlow | hhigh
    · refine htag 0 (by omega) ?_
      rw [Nat.add_zero, show p.length = f.start + (p.length - f.start) by omega]
      exact hget _ (by omega)
    · refine htag (f.start - p.length) (by omega) ?_
      rw [show p.length + (f.start - p.length) = f.start + 0 by omega]
      exact hget 0 (by omega)
  · refine hw.no_fence hchar hlen (f.start - (p.length + 8)) ?_
    rw [show f.start = (p ++ thinkClose).length + (f.start - (p.length + 8)) by
      rw [List.length_append]; omega, ← List.drop_drop, List.drop_left] at hrun
    exact hrun

/-- **Every quoted example of the reasoning ends in it.** -/
theorem mentions_ends (isAlnum : Char → Bool) :
    EndsIn (· ≤ p.length) (quotedSpanEnds isAlnum (p ++ thinkClose ++ w)) := by
  refine quotedSpanEnds_in isAlnum (fun i c hc hq => ?_) fun f hf => ?_
  · by_contra hle
    obtain ⟨h₁, h₂⟩ := answer_plain hw (by omega) hc
    rcases hq with hq | hq
    · rw [h₁] at hq; cases hq
    · exact h₂ hq
  · obtain ⟨hchar, hlen, hrun⟩ := fencesFrom_run _ 0 f hf
    have hstart := fence_in_reasoning hw hchar hlen hrun
    have hoccurs := fencesFrom_occurs _ 0 f hf
    refine (hoccurs.spanEnd.outside (by decide)).resolve_right fun hover => ?_
    -- an info string that runs over the tag would hold it
    refine splitHead_free (show thinkClose ≠ [] by decide) (splitHead thinkOpen f.info) ?_
    have hinfo : f.ownInfo <+: (p ++ thinkClose ++ w).drop (f.start + f.length) :=
      ((splitHead_le _ _).trans (splitHead_le _ _)).trans hoccurs.info
    have htag : thinkClose <+: f.ownInfo.drop (p.length - (f.start + f.length)) := by
      rw [List.prefix_iff_eq_take.mp hinfo, List.drop_take, List.drop_drop,
        show f.start + f.length + (p.length - (f.start + f.length)) = p.length by omega,
        List.append_assoc, List.drop_left]
      refine List.prefix_of_prefix_length_le (List.prefix_append _ _) (List.take_prefix _ _) ?_
      have hcl : thinkClose.length = 8 := rfl
      rw [List.length_take, List.length_append]
      omega
    exact htag.isInfix.trans (List.drop_suffix _ _).isInfix

end Boundary

/-! ## 3. The argument that runs on -/

namespace Scan

/-- Where the string of an `arguments` key has its quote, behind a header string that ended at `e`. -/
def argumentString (s : Scan) (text : List Char) (start limit : Nat) (e : Nat × Bool) : Option Nat :=
  if e.2 && s.scope.jsonDepth == 1 then
    match loadsKey (region text (start + 1) e.1) with
    | none => none
    | some key =>
      match argumentStart (region text e.1 limit) with
      | some (c, offset) => if isArgumentsKey key ∧ c = '"' then some (e.1 + offset) else none
      | none => none
  else none

/-- A string of a call's object, with its quote at `start`, is not closed in front of `stop`: an
    argument, or a header string that ends in an escape or opens an argument. -/
def stringRunsOn (text : List Char) (stop start limit : Nat) (s : Scan) : Bool :=
  if s.scope.argumentDepth ≠ 0 then stringOpen (region text (start + 1) stop)
  else
    escapeOpen (region text (start + 1) stop) ||
      (s.argumentString text start limit
        (jsonHeaderEnd (start + 1) (region text (start + 1) limit))).any fun i =>
          stringOpen (region text (i + 1) stop)

/-- A turn that runs over `stop`, read in front of it: a string of a call's object, or a parameter
    in a quoted example, that is not closed there. -/
def runsOn (text : List Char) (stop : Nat) (s : Scan) : Bool :=
  match searchToken text s.pos (s.limit text) with
  | none => false
  | some (start, marker) =>
    decide (stop < s.limit text) &&
      if s.scope.jsonDepth ≠ 0 then
        marker == ['"'] && s.stringRunsOn text stop start (s.limit text)
      else
        s.scope.inTool && s.scope.inFunction && s.quoteEnd.isSome &&
          parameterHead.isPrefixOf marker && named parameterHead marker &&
          (xmlValueEnd text (start + marker.length) stop).isNone

end Scan

/-! ## 4. Inside the reasoning -/

section Inside

variable {isAlnum : Char → Bool} {p w : List Char} {ends : Dict Nat Nat}

/-- The scanner in reasoning that opened at `low`. -/
structure Inside (text : List Char) (low stop : Nat) (s : Scan) : Prop where
  low : low ≤ s.pos
  pos : s.pos ≤ stop
  reasoning : s.inReasoning = some true
  tool : s.scope.inTool = true → s.scope.toolInReasoning = true
  state : s.quoteState.inTool = true → s.quoteState.toolInReasoning = true
  quote : ∀ e, s.quoteEnd = some e → e ≤ stop ∨ e = text.length

theorem Inside.leaveQuote {text : List Char} {low stop : Nat} {s : Scan}
    (h : Inside text low stop s) : Inside text low stop s.leaveQuote := by
  unfold Scan.leaveQuote
  split
  · split
    · exact ⟨h.low, h.pos, h.reasoning, h.state, h.state, nofun⟩
    · exact h
  · exact h

/-- The limit lies in the reasoning, or at the end of the text. -/
theorem Inside.limit {text : List Char} {low stop : Nat} {s : Scan} (h : Inside text low stop s) :
    s.limit text ≤ stop ∨ s.limit text = text.length := by
  unfold Scan.limit
  cases he : s.quoteEnd with
  | none => exact .inr rfl
  | some e => exact h.quote e he

/-- What the text of the reasoning is made of: no think tag from `low` on. -/
structure Mentions (p : List Char) (low : Nat) : Prop where
  opener : ¬ thinkOpen <:+: p.drop low
  closer : ¬ thinkClose <:+: p.drop low

theorem Mentions.drop {low pos : Nat} (h : Mentions p low) (hpos : low ≤ pos) :
    ¬ thinkOpen <:+: p.drop pos ∧ ¬ thinkClose <:+: p.drop pos := by
  have hsub : ∀ {t : List Char}, t <:+: p.drop pos → t <:+: p.drop low := fun ht => by
    rw [show pos = low + (pos - low) by omega, ← List.drop_drop] at ht
    exact ht.trans (List.drop_suffix _ _).isInfix
  exact ⟨fun ht => h.opener (hsub ht), fun ht => h.closer (hsub ht)⟩

/-- The text up to a limit behind the reasoning. -/
theorem region_reasoning {pos : Nat} (hpos : pos ≤ p.length) :
    region (p ++ thinkClose ++ w) pos (p ++ thinkClose ++ w).length =
      p.drop pos ++ thinkClose ++ w ∧
    region (p ++ thinkClose ++ w) pos p.length = p.drop pos := by
  constructor
  · unfold region
    rw [List.take_length, List.append_assoc, List.drop_append_of_le_length hpos, List.append_assoc]
  · unfold region
    rw [List.append_assoc, List.take_left]

/-- What reads on without a `<` stays in the reasoning. -/
theorem read_within {pos n limit : Nat} (hpos : pos ≤ p.length)
    (hlimit : limit ≤ p.length ∨ limit = (p ++ thinkClose ++ w).length)
    (hlen : n < (region (p ++ thinkClose ++ w) pos limit).length)
    (hread : ∀ i ≤ n, (region (p ++ thinkClose ++ w) pos limit)[i]? ≠ some '<') :
    pos + n < p.length := by
  rcases hlimit with hle | rfl
  · rw [region_length] at hlen
    omega
  · by_contra hge
    refine hread (p.length - pos) (by omega) ?_
    rw [(region_reasoning hpos).1, List.append_assoc, List.getElem?_append_right
      (by rw [List.length_drop]), List.length_drop, Nat.sub_self]
    rfl

theorem reads_of_append {l a b : List Char} {c : Char} (h : l = a ++ c :: b) (ha : '<' ∉ a)
    (hc : c ≠ '<') : a.length < l.length ∧ ∀ i ≤ a.length, l[i]? ≠ some '<' := by
  subst h
  refine ⟨by simp, fun i hi hget => ?_⟩
  rcases Nat.eq_or_lt_of_le hi with rfl | hlt
  · rw [List.getElem?_append_right le_rfl, Nat.sub_self, List.getElem?_cons_zero] at hget
    exact hc (Option.some.inj hget)
  · rw [List.getElem?_append_left hlt] at hget
    exact ha (List.mem_of_getElem? hget)

/-- Whitespace, and what follows it. -/
theorem skip_space {l rest : List Char} {c : Char} (h : l.dropWhile isSpace = c :: rest) :
    l = l.takeWhile isSpace ++ c :: rest ∧ '<' ∉ l.takeWhile isSpace := by
  refine ⟨?_, fun hm => ?_⟩
  · conv_lhs => rw [← List.takeWhile_append_dropWhile (p := isSpace) (l := l), h]
  · have := List.mem_takeWhile_imp hm
    revert this
    decide

/-- The start of an argument is read without a `<`. -/
theorem argumentStart_reads {l : List Char} {c : Char} {n : Nat}
    (h : argumentStart l = some (c, n)) : n < l.length ∧ ∀ i ≤ n, l[i]? ≠ some '<' := by
  unfold argumentStart at h
  split at h
  · next rest hcolon =>
    split at h
    · next d rest' hd =>
      split at h
      · next hbracket =>
        obtain ⟨rfl, rfl⟩ := Prod.mk.inj (Option.some.inj h)
        obtain ⟨hl, hspace⟩ := skip_space hcolon
        obtain ⟨hr, hspace'⟩ := skip_space hd
        have hd' : d ≠ '<' := by
          rintro rfl
          revert hbracket
          decide
        have hwhole : l = (l.takeWhile isSpace ++ ':' :: rest.takeWhile isSpace) ++ d :: rest' := by
          conv_lhs => rw [hl, hr]
          simp
        have := reads_of_append hwhole (by simp [hspace, hspace']) hd'
        simpa [Nat.add_assoc, Nat.add_comm, Nat.add_left_comm] using this
      · cases h
    · cases h
  · cases h

/-- The start of an object is read without a `<`. -/
theorem objectStart_reads {l : List Char} {n : Nat} (h : objectStart l = some n) :
    ∃ m, n = m + 1 ∧ m < l.length ∧ ∀ i ≤ m, l[i]? ≠ some '<' := by
  unfold objectStart at h
  split at h
  · next rest hrest =>
    obtain ⟨hl, hspace⟩ := skip_space hrest
    exact ⟨_, (Option.some.inj h).symm, reads_of_append hl hspace (by decide)⟩
  · cases h

/-! ## 5. Where a turn ends -/

theorem text_length (p w : List Char) : (p ++ thinkClose ++ w).length = p.length + (8 + w.length) := by
  have hcl : thinkClose.length = 8 := rfl
  simp only [List.length_append, hcl, Nat.add_assoc]

/-- A string ends in the reasoning, or it is not closed there. -/
theorem stringEnd_le_iff {start limit : Nat} (hstart : start + 1 ≤ p.length)
    (hlimit : limit ≤ p.length ∨ limit = (p ++ thinkClose ++ w).length) :
    Scan.stringEnd (p ++ thinkClose ++ w) start limit ≤ p.length ↔
      ¬ (p.length < limit ∧ stringOpen (region (p ++ thinkClose ++ w) (start + 1) p.length) = true) := by
  unfold Scan.stringEnd
  rcases hlimit with hle | rfl
  · have := stringTail_le (region (p ++ thinkClose ++ w) (start + 1) limit)
    rw [region_length] at this
    exact ⟨fun _ h => absurd h.1 (by omega), fun _ => by omega⟩
  · have hlen := text_length p w
    obtain ⟨hfull, hcut⟩ := region_reasoning (w := w) hstart
    have htail := stringTail_append (b := thinkClose ++ w) (by simp [thinkClose]) (p.drop (start + 1))
    rw [← List.append_assoc, List.length_drop, ← Bool.not_eq_true] at htail
    rw [hfull, hcut]
    constructor
    · exact fun h hc => htail.mp (by omega) hc.2
    · intro h
      have := htail.mpr fun hc => h ⟨by omega, hc⟩
      omega

theorem jsonHeaderEnd_length : ∀ (l : List Char) (pos : Nat),
    (jsonHeaderEnd pos l).1 ≤ pos + l.length := by
  intro l pos
  induction pos, l using jsonHeaderEnd.induct with
  | case1 pos => exact Nat.le_add_right _ _
  | case2 pos l => rw [jsonHeaderEnd]; simp only [List.length_cons]; omega
  | case3 pos d l ih => rw [jsonHeaderEnd]; simp only [List.length_cons]; omega
  | case4 pos c l h₁ h₂ h =>
      rw [jsonHeaderEnd, if_pos h]
      · exact Nat.le_add_right _ _
      · exact h₁
      · exact h₂
  | case5 pos c l h₁ h₂ h ih =>
      rw [jsonHeaderEnd, if_neg h]
      · simp only [List.length_cons]
        omega
      · exact h₁
      · exact h₂

/-- A header string ends in the reasoning, or an escape takes the tag. -/
theorem jsonHeaderEnd_le_iff {low pos limit : Nat} (hr : Mentions p low) (hlow : low ≤ pos)
    (hpos : pos ≤ p.length) (hlimit : limit ≤ p.length ∨ limit = (p ++ thinkClose ++ w).length) :
    (jsonHeaderEnd pos (region (p ++ thinkClose ++ w) pos limit)).1 ≤ p.length ↔
      ¬ (p.length < limit ∧ escapeOpen (region (p ++ thinkClose ++ w) pos p.length) = true) := by
  rcases hlimit with hle | rfl
  · have := jsonHeaderEnd_length (region (p ++ thinkClose ++ w) pos limit) pos
    rw [region_length] at this
    exact ⟨fun _ h => absurd h.1 (by omega), fun _ => by omega⟩
  · have hlen := text_length p w
    obtain ⟨hfull, hcut⟩ := region_reasoning (w := w) hpos
    obtain ⟨ho, hc⟩ := hr.drop hlow
    have hend := jsonHeaderEnd_append (b := w) (p.drop pos) pos ho hc
    rw [List.length_drop, Nat.add_sub_cancel' hpos] at hend
    rw [hfull, hcut, hend, ← Bool.not_eq_true]
    exact ⟨fun h hc => h hc.2, fun h hc => h ⟨by omega, hc⟩⟩

/-- Behind the `<` of the boundary no tag starts. -/
theorem no_tag_tail (hw : Silent w) : ∀ t ∈ literalTags, ∀ k,
    ¬ t <+: (thinkClose.tail ++ w).drop k := by
  intro t ht k hp
  obtain ⟨t', rfl, -⟩ := literalTag_cons ht
  rcases Nat.lt_or_ge k thinkClose.tail.length with hlt | hge
  · exact (show Skips ('<' :: t') thinkClose.tail from skips_of_notMem (by decide)) w k hlt hp
  · rw [show k = thinkClose.tail.length + (k - thinkClose.tail.length) by omega,
      ← List.drop_drop, List.drop_left] at hp
    exact hw.no_tag ht _ hp

theorem no_tag_past (hw : Silent w) {t : List Char} (ht : t ∈ literalTags) {z : Nat}
    (hz : p.length < z) : ¬ t <+: (p ++ thinkClose ++ w).drop z := by
  obtain ⟨k, rfl⟩ : ∃ k, z = p.length + (k + 1) := ⟨z - p.length - 1, by omega⟩
  rw [List.append_assoc, ← List.drop_drop, List.drop_left]
  exact no_tag_tail hw t ht k

/-- Behind the reasoning no tag starts but its close. -/
theorem no_tag_behind (hw : Silent w) {t : List Char} (ht : t ∈ literalTags) (hne : t ≠ thinkClose)
    {z : Nat} (hz : p.length ≤ z) : ¬ t <+: (p ++ thinkClose ++ w).drop z := by
  rcases Nat.eq_or_lt_of_le hz with rfl | hlt
  · rw [List.append_assoc, List.drop_left]
    intro hp
    simp only [literalTags, List.mem_cons, List.not_mem_nil, or_false] at ht
    rcases ht with rfl | rfl | rfl | rfl | rfl | rfl
    · simp [thinkOpen, thinkClose] at hp
    · exact hne rfl
    · simp [toolOpen, thinkClose] at hp
    · simp [toolClose, thinkClose] at hp
    · simp [functionClose, thinkClose] at hp
    · simp [parameterClose, thinkClose] at hp
  · exact no_tag_past hw ht hlt

/-- A tag that starts in the reasoning ends in it. -/
theorem tag_within {t : List Char} (ht : t ∈ literalTags) {z : Nat} (hz : z < p.length)
    (h : t <+: (p ++ thinkClose ++ w).drop z) : t <+: p.drop z := by
  have h' : t <+: (p ++ '<' :: (thinkClose.tail ++ w)).drop z := by
    rwa [List.append_assoc] at h
  exact tag_in_front (literalTags_tail t ht).2 hz h'

theorem xmlClosers_literal : ∀ t ∈ xmlClosers, t ∈ literalTags ∧ t ≠ thinkClose ∧ t ≠ [] := by decide

/-- Where a closer stands, the search finds one in front of it. -/
theorem xmlValueEnd_le_of_at {t : List Char} (ht : t ∈ xmlClosers) (text : List Char)
    (limit : Nat) {pos z : Nat} (hpos : pos ≤ z) (h : t <+: (text.take limit).drop z) :
    ∃ z', xmlValueEnd text pos limit = some z' ∧ z' ≤ z := by
  have hne := (xmlClosers_literal t ht).2.2
  have hat : (if xmlClosers.any (·.isPrefixOf ((region text pos limit).drop (z - pos))) then some ()
      else none) = some () := by
    rw [if_pos]
    rw [region_drop, Nat.add_sub_cancel' hpos]
    exact List.any_eq_true.mpr ⟨t, ht, List.isPrefixOf_iff_prefix.mpr h⟩
  have hlen : z < (text.take limit).length := by
    by_contra hge
    rw [List.drop_eq_nil_of_le (not_lt.mp hge)] at h
    exact hne (List.prefix_nil.mp h)
  unfold xmlValueEnd
  cases hs : searchFrom (fun l => if xmlClosers.any (·.isPrefixOf l) then some () else none) pos
      (region text pos limit) with
  | none =>
      have hnone := searchFrom_none hs (z - pos) (by
        unfold region
        rw [List.length_drop]
        omega)
      rw [hat] at hnone
      cases hnone
  | some found =>
      refine ⟨found.1, rfl, ?_⟩
      by_contra hlt
      have hnone := (searchFrom_some hs).2.2.2 z hpos (not_le.mp hlt)
      rw [hat] at hnone
      cases hnone

/-- A value ends in the reasoning, or has no close there. -/
theorem xmlValueEnd_le_iff (hw : Silent w) (pos : Nat) {limit : Nat}
    (hlimit : limit ≤ p.length ∨ limit = (p ++ thinkClose ++ w).length) :
    (xmlValueEnd (p ++ thinkClose ++ w) pos limit).getD limit ≤ p.length ↔
      ¬ (p.length < limit ∧ xmlValueEnd (p ++ thinkClose ++ w) pos p.length = none) := by
  rcases hlimit with hle | rfl
  · refine ⟨fun _ h => absurd h.1 (by omega), fun _ => ?_⟩
    cases hz : xmlValueEnd (p ++ thinkClose ++ w) pos limit with
    | none => exact hle
    | some z =>
        obtain ⟨-, -, -, hlt, -⟩ := xmlValueEnd_some hz
        exact hlt.le.trans hle
  · have hlen := text_length p w
    constructor
    · rintro h ⟨-, hnone⟩
      cases hz : xmlValueEnd (p ++ thinkClose ++ w) pos (p ++ thinkClose ++ w).length with
      | none => rw [hz, Option.getD_none] at h; omega
      | some z =>
          rw [hz, Option.getD_some] at h
          obtain ⟨t, ht, hlow, -, hat⟩ := xmlValueEnd_some hz
          obtain ⟨hliteral, hne, hnil⟩ := xmlClosers_literal t ht
          rcases Nat.eq_or_lt_of_le h with rfl | hlt
          · exact no_tag_behind hw hliteral hne le_rfl hat
          · have hin := tag_within hliteral hlt hat
            obtain ⟨z', hz', -⟩ := xmlValueEnd_le_of_at ht (p ++ thinkClose ++ w)
              p.length hlow (by rwa [List.append_assoc, List.take_left])
            rw [hnone] at hz'
            cases hz'
    · intro h
      cases hcut : xmlValueEnd (p ++ thinkClose ++ w) pos p.length with
      | none => exact absurd ⟨by omega, hcut⟩ h
      | some z =>
          obtain ⟨t, ht, hlow, hlt, hat⟩ := xmlValueEnd_some hcut
          obtain ⟨z', hz', hle⟩ := xmlValueEnd_le_of_at ht (p ++ thinkClose ++ w)
            (p ++ thinkClose ++ w).length hlow (by rwa [List.take_length])
          rw [hz', Option.getD_some]
          omega

/-- Behind a boundary nothing moves it, where no tag follows. -/
theorem reasoningValueEnd_boundary : ∀ (l : List Char) (pos b : Nat),
    (∀ t ∈ literalTags, ∀ k, ¬ t <+: l.drop k) → xmlReasoningValueEnd pos 0 (some b) l = b
  | [], _, _, _ => rfl
  | c :: l, pos, b, h => by
      have hno : ∀ t ∈ literalTags, t.isPrefixOf (c :: l) = false := fun t ht =>
        Bool.eq_false_iff.mpr fun hp => h t ht 0 (List.isPrefixOf_iff_prefix.mp hp)
      have hclosers : (xmlClosers.any (·.isPrefixOf (c :: l))) = false := by
        rw [List.any_eq_false]
        exact fun t ht => by simp [hno t (xmlClosers_literal t ht).1]
      unfold xmlReasoningValueEnd
      rw [hno thinkOpen (by decide), hno thinkClose (by decide), hno toolOpen (by decide), hclosers]
      simp only [Bool.false_eq_true, if_false]
      exact reasoningValueEnd_boundary l _ b fun t ht k => h t ht (k + 1)

/-- **A mentioned value ends at the boundary at the latest.** -/
theorem reasoningValueEnd_le (hw : Silent w) : ∀ (a : List Char) (pos : Nat),
    ¬ thinkOpen <:+: a → ¬ thinkClose <:+: a →
      xmlReasoningValueEnd pos 0 none (a ++ thinkClose ++ w) ≤ pos + a.length
  | [], pos, _, _ => by
      have hend : xmlReasoningValueEnd pos 0 none (thinkClose ++ w) =
          xmlReasoningValueEnd (pos + 1) 0 (some pos) (thinkClose.tail ++ w) := by
        show xmlReasoningValueEnd pos 0 none ('<' :: (thinkClose.tail ++ w)) = _
        rw [xmlReasoningValueEnd]
        rw [if_neg (by simp [thinkOpen, thinkClose, List.isPrefixOf]),
          if_pos (by simp [thinkClose, List.isPrefixOf]), if_neg (by decide)]
      rw [List.nil_append, hend, reasoningValueEnd_boundary _ _ _ (no_tag_tail hw)]
      exact Nat.le_add_right _ _
  | c :: a, pos, ho, hc => by
      have hsub : ∀ {t : List Char}, ¬ t <:+: c :: a → ¬ t <:+: a := fun h h' =>
        h (h'.trans (List.suffix_cons _ _).isInfix)
      have hno : ∀ {t : List Char}, '<' ∉ t.tail → ¬ t <:+: c :: a →
          t.isPrefixOf (c :: (a ++ thinkClose ++ w)) = false := by
        intro t ht hin
        refine Bool.eq_false_iff.mpr fun hp => hin ?_
        have hp' : t <+: (c :: a) ++ '<' :: (thinkClose.tail ++ w) := by
          simpa [thinkClose] using List.isPrefixOf_iff_prefix.mp hp
        exact (isPrefix_of_append_cons ht (by simp) hp').isInfix
      have hrec := reasoningValueEnd_le hw a (pos + 1) (hsub ho) (hsub hc)
      rw [List.cons_append, List.cons_append, xmlReasoningValueEnd, hno (by decide) ho,
        hno (by decide) hc, if_neg Bool.false_ne_true, if_neg Bool.false_ne_true, List.length_cons]
      split
      · omega
      · split
        · omega
        · omega

/-! ## 6. A turn in the reasoning -/

variable {isAlnum : Char → Bool} {ends : Dict Nat Nat} {low : Nat}

/-- A state that moved on in the reasoning, in the same scopes. -/
theorem Inside.move {text : List Char} {stop : Nat} {s : Scan} (h : Inside text low stop s)
    {pos : Nat} (hlow : low ≤ pos) (hpos : pos ≤ stop) : Inside text low stop { s with pos := pos } :=
  ⟨hlow, hpos, h.reasoning, h.tool, h.state, h.quote⟩

/-- An example that opens ends in the reasoning. -/
theorem Inside.openQuote {text : List Char} {stop : Nat} {s : Scan} (h : Inside text low stop s)
    (hends : EndsIn (· ≤ stop) ends) (start : Nat) (marker : List Char) :
    Inside text low stop (s.openQuote ends start marker) :=
  ⟨h.low, h.pos, h.reasoning, h.tool, h.tool, fun e he => .inl (hends start e he)⟩

theorem Inside.endJsonExample {text : List Char} {stop : Nat} {s : Scan}
    (h : Inside text low stop s) (limit : Nat) :
    Inside text low stop (s.endJsonExample isAlnum text limit) := by
  unfold Scan.endJsonExample
  split
  · refine ⟨h.low, h.pos, h.reasoning, h.tool, h.state, fun e he => ?_⟩
    cases he
    exact .inl h.pos
  · exact h

theorem Inside.proseQuote {text : List Char} {stop : Nat} {s : Scan} (h : Inside text low stop s)
    (hends : EndsIn (· ≤ stop) ends) (start : Nat) (quote : Char) :
    Inside text low stop (s.proseQuote isAlnum text ends start quote) := by
  unfold Scan.proseQuote
  split
  · refine ⟨h.low, h.pos, h.reasoning, h.tool, h.state, fun e he => ?_⟩
    cases he
    exact .inl h.pos
  · split
    · exact h.openQuote hends start [quote]
    · exact h

theorem Inside.jsonBracket {text : List Char} {stop : Nat} {s : Scan} (h : Inside text low stop s)
    (marker : List Char) : Inside text low stop (s.jsonBracket marker) := by
  unfold Scan.jsonBracket
  split
  · exact ⟨h.low, h.pos, h.reasoning, h.tool, h.state, h.quote⟩
  · split
    · exact ⟨h.low, h.pos, h.reasoning, h.tool, h.state, h.quote⟩
    · exact h

/-- A mentioned `<tool_call>`, with the object that may follow. -/
theorem Inside.toolTag {s : Scan} (h : Inside (p ++ thinkClose ++ w) low p.length s) (start : Nat)
    {limit : Nat} (hlimit : limit ≤ p.length ∨ limit = (p ++ thinkClose ++ w).length) :
    Inside (p ++ thinkClose ++ w) low p.length (s.toolTag (p ++ thinkClose ++ w) start limit) := by
  have hreason : (if s.inReasoning = none ∧ start = firstContent (p ++ thinkClose ++ w) then some false
      else s.inReasoning) = some true := by
    rw [if_neg (fun hc => by rw [h.reasoning] at hc; cases hc.1), h.reasoning]
  unfold Scan.toolTag
  simp only [hreason]
  split
  · exact ⟨h.low, h.pos, rfl, fun _ => rfl, h.state, h.quote⟩
  · next n hn =>
    obtain ⟨m, rfl, hlen, hread⟩ := objectStart_reads hn
    have hin := read_within h.pos hlimit hlen hread
    have hlow := h.low
    split
    · refine ⟨by simp only; omega, by simp only; omega, rfl, fun _ => rfl, h.state, fun e he => ?_⟩
      cases he
      exact .inr rfl
    · exact ⟨by simp only; omega, by simp only; omega, rfl, fun _ => rfl, h.state, h.quote⟩

/-- A position that moved on, with an unfinished example that may end there. -/
theorem Inside.moveString {text : List Char} {stop : Nat} {s : Scan} (h : Inside text low stop s)
    {pos limit : Nat} (hlow : low ≤ pos) (hpos : pos ≤ stop) :
    Inside text low stop (Scan.endJsonExample isAlnum text { s with pos := pos } limit) :=
  (h.move hlow hpos).endJsonExample limit

/-- A header string that is not followed by an argument string. -/
theorem headerString_plain {text : List Char} {s : Scan} {start limit : Nat} {stop : Nat}
    (h : Inside text low stop s) (hpos : s.pos = start + 1)
    (hnone : s.argumentString text start limit
      (jsonHeaderEnd (start + 1) (region text (start + 1) limit)) = none)
    (hin : ∀ pos, (jsonHeaderEnd (start + 1) (region text (start + 1) limit)).1 = pos →
      pos ≤ stop ∧ ∀ c n, argumentStart (region text pos limit) = some (c, n) → pos + n < stop) :
    Inside text low stop (s.headerString text start limit).1 := by
  have hlow := h.low
  have hle := jsonHeaderEnd_le (start + 1) (region text (start + 1) limit)
  unfold Scan.argumentString at hnone
  unfold Scan.headerString
  rw [hpos]
  generalize jsonHeaderEnd (start + 1) (region text (start + 1) limit) = e at hnone hin hle
  obtain ⟨hstop, hnext⟩ := hin e.1 rfl
  have hmove : Inside text low stop { s with pos := e.1 } := h.move (by omega) hstop
  simp only
  split
  · next hkey =>
    rw [if_pos hkey] at hnone
    cases hk : loadsKey (region text (start + 1) e.1) with
    | none => exact hmove
    | some key =>
        rw [hk] at hnone
        simp only at hnone ⊢
        cases ha : argumentStart (region text e.1 limit) with
        | none => exact hmove
        | some found =>
            obtain ⟨c, n⟩ := found
            rw [ha] at hnone
            have hlt := hnext c n ha
            simp only at hnone ⊢
            split
            · next harg =>
              split
              · next hc => rw [if_pos ⟨harg, hc⟩] at hnone; cases hnone
              · exact ⟨by simp only; omega, by simp only; omega, h.reasoning, h.tool, h.state, h.quote⟩
            · exact hmove
  · exact hmove

theorem argumentString_some {text : List Char} {s : Scan} {start limit i : Nat} {e : Nat × Bool}
    (h : s.argumentString text start limit e = some i) :
    (e.2 && s.scope.jsonDepth == 1) = true ∧ ∃ key n, loadsKey (region text (start + 1) e.1) = some key ∧
      argumentStart (region text e.1 limit) = some ('"', n) ∧ isArgumentsKey key = true ∧
      i = e.1 + n := by
  unfold Scan.argumentString at h
  split at h
  · next hheader =>
    split at h
    · cases h
    · next key hkey =>
      split at h
      · next c n hargument =>
        split at h
        · next harg =>
          obtain ⟨harg, rfl⟩ := harg
          exact ⟨hheader, key, n, hkey, hargument, harg, (Option.some.inj h).symm⟩
        · cases h
      · cases h
  · cases h

/-- A header string that is followed by an argument string. -/
theorem headerString_argument {text : List Char} {s : Scan} {start limit i : Nat}
    (hpos : s.pos = start + 1)
    (hsome : s.argumentString text start limit
      (jsonHeaderEnd (start + 1) (region text (start + 1) limit)) = some i) :
    s.headerString text start limit = ({ s with pos := Scan.stringEnd text i limit }, true) ∧
      ∃ n, i = (jsonHeaderEnd (start + 1) (region text (start + 1) limit)).1 + n ∧
        argumentStart (region text
          (jsonHeaderEnd (start + 1) (region text (start + 1) limit)).1 limit) = some ('"', n) := by
  obtain ⟨hheader, key, n, hkey, hargument, harg, hi⟩ := argumentString_some hsome
  refine ⟨?_, n, hi, hargument⟩
  unfold Scan.headerString
  rw [hpos, hi]
  simp only
  rw [if_pos hheader]
  simp only [hkey, hargument, harg, if_true]

/-- **A string of a mentioned object** runs over the boundary, or ends in the reasoning. -/
theorem Inside.jsonString (isAlnum : Char → Bool) {s : Scan}
    (h : Inside (p ++ thinkClose ++ w) low p.length s)
    (hr : Mentions p low) {start limit : Nat} (hpos : s.pos = start + 1) (hlow : low ≤ start)
    (hlimit : limit ≤ p.length ∨ limit = (p ++ thinkClose ++ w).length) :
    if p.length < limit ∧ s.stringRunsOn (p ++ thinkClose ++ w) p.length start limit = true then
      p.length < (s.jsonString isAlnum (p ++ thinkClose ++ w) start limit).pos
    else
      Inside (p ++ thinkClose ++ w) low p.length
        (s.jsonString isAlnum (p ++ thinkClose ++ w) start limit) := by
  have hstart : start + 1 ≤ p.length := hpos ▸ h.pos
  have hstring : ∀ i, i + 1 ≤ p.length → low ≤ i →
      if p.length < limit ∧ stringOpen (region (p ++ thinkClose ++ w) (i + 1) p.length) = true then
        p.length < (Scan.endJsonExample isAlnum (p ++ thinkClose ++ w)
          { s with pos := Scan.stringEnd (p ++ thinkClose ++ w) i limit } limit).pos
      else
        Inside (p ++ thinkClose ++ w) low p.length (Scan.endJsonExample isAlnum (p ++ thinkClose ++ w)
          { s with pos := Scan.stringEnd (p ++ thinkClose ++ w) i limit } limit) := by
    intro i hi hlow'
    have hiff := stringEnd_le_iff (w := w) hi hlimit
    split
    · next hover =>
      rw [Scan.endJsonExample_pos]
      by_contra hle
      exact hiff.mp (not_lt.mp hle) hover
    · next hover =>
      refine h.moveString ?_ (hiff.mpr hover)
      unfold Scan.stringEnd
      omega
  unfold Scan.jsonString Scan.stringRunsOn
  by_cases hdepth : s.scope.argumentDepth ≠ 0
  · rw [if_pos hdepth, if_pos hdepth]
    exact hstring start hstart hlow
  rw [if_neg hdepth, if_neg hdepth]
  have hiff := jsonHeaderEnd_le_iff (w := w) hr (show low ≤ start + 1 by omega) hstart hlimit
  have hhead := jsonHeaderEnd_le (start + 1) (region (p ++ thinkClose ++ w) (start + 1) limit)
  by_cases hescape : p.length < limit ∧
      escapeOpen (region (p ++ thinkClose ++ w) (start + 1) p.length) = true
  · -- the escape takes the `<` of the tag
    rw [if_pos ⟨hescape.1, by rw [hescape.2, Bool.true_or]⟩]
    have hgt : p.length <
        (jsonHeaderEnd (start + 1) (region (p ++ thinkClose ++ w) (start + 1) limit)).1 := by
      by_contra hle
      exact hiff.mp (not_lt.mp hle) hescape
    have hpos' : p.length < (s.headerString (p ++ thinkClose ++ w) start limit).1.pos := by
      have hle : (jsonHeaderEnd s.pos (region (p ++ thinkClose ++ w) s.pos limit)).1 ≤
          (s.headerString (p ++ thinkClose ++ w) start limit).1.pos :=
        Scan.headerString_header s start limit
      rw [hpos] at hle
      omega
    simp only
    split
    · rw [Scan.endJsonExample_pos]
      exact hpos'
    · exact hpos'
  · have hle := hiff.mpr hescape
    have hnext : ∀ c n, argumentStart (region (p ++ thinkClose ++ w)
        (jsonHeaderEnd (start + 1) (region (p ++ thinkClose ++ w) (start + 1) limit)).1 limit) =
          some (c, n) →
        (jsonHeaderEnd (start + 1) (region (p ++ thinkClose ++ w) (start + 1) limit)).1 + n <
          p.length := by
      intro c n ha
      obtain ⟨hlen, hread⟩ := argumentStart_reads ha
      exact read_within hle hlimit hlen hread
    cases harg : s.argumentString (p ++ thinkClose ++ w) start limit
        (jsonHeaderEnd (start + 1) (region (p ++ thinkClose ++ w) (start + 1) limit)) with
    | none =>
        rw [if_neg fun hc => hescape ⟨hc.1, by simpa using hc.2⟩]
        have hin := headerString_plain h hpos harg fun pos hp => by
          subst hp
          exact ⟨hle, hnext⟩
        simp only
        split
        · exact hin.endJsonExample limit
        · exact hin
    | some i =>
        obtain ⟨hval, n, hi, ha⟩ := headerString_argument hpos harg
        have hlt := hnext _ _ ha
        have hcond : (p.length < limit ∧
            (escapeOpen (region (p ++ thinkClose ++ w) (start + 1) p.length) ||
              (some i).any fun i => stringOpen (region (p ++ thinkClose ++ w) (i + 1) p.length)) =
                true) ↔
            (p.length < limit ∧ stringOpen (region (p ++ thinkClose ++ w) (i + 1) p.length) = true) := by
          rw [Option.any_some, Bool.or_eq_true]
          exact ⟨fun hc => ⟨hc.1, hc.2.resolve_left fun he => hescape ⟨hc.1, he⟩⟩,
            fun hc => ⟨hc.1, .inr hc.2⟩⟩
        rw [hval]
        simp only [if_true]
        rw [if_congr hcond rfl rfl]
        exact hstring i (by omega) (by omega)

/-- **A parameter of a mentioned call** runs over the boundary in a quoted example without its
    close, and is left at the boundary everywhere else. -/
theorem Inside.xmlTag {s : Scan} (h : Inside (p ++ thinkClose ++ w) low p.length s) (hw : Silent w)
    (hr : Mentions p low) (htool : s.scope.inTool = true)
    (hpos : s.pos ≤ s.limit (p ++ thinkClose ++ w)) (marker : List Char) :
    if p.length < s.limit (p ++ thinkClose ++ w) ∧ s.scope.inFunction = true ∧
        s.quoteEnd.isSome = true ∧ parameterHead.isPrefixOf marker = true ∧
        Scan.named parameterHead marker = true ∧
        xmlValueEnd (p ++ thinkClose ++ w) s.pos p.length = none then
      p.length <
        (s.xmlTag (p ++ thinkClose ++ w) (s.limit (p ++ thinkClose ++ w)) marker).pos
    else
      Inside (p ++ thinkClose ++ w) low p.length
        (s.xmlTag (p ++ thinkClose ++ w) (s.limit (p ++ thinkClose ++ w)) marker) := by
  have hscope : ∀ b : Bool, Inside (p ++ thinkClose ++ w) low p.length
      { s with scope := { s.scope with inFunction := b } } := fun _ =>
    ⟨h.low, h.pos, h.reasoning, h.tool, h.state, h.quote⟩
  unfold Scan.xmlTag
  by_cases hfun : functionHead.isPrefixOf marker = true
  · rw [if_neg, if_pos hfun]
    · exact hscope _
    · rintro ⟨-, -, -, hpar, -⟩
      obtain ⟨_, rfl⟩ := List.isPrefixOf_iff_prefix.mp hfun
      simp [functionHead, parameterHead] at hpar
  rw [if_neg hfun]
  by_cases hclose : marker = functionClose
  · rw [if_neg, if_pos hclose]
    · exact hscope _
    · rintro ⟨-, -, -, hpar, -⟩
      rw [hclose] at hpar
      revert hpar
      decide
  rw [if_neg hclose]
  -- only the head of a parameter reads a value, and only inside a function
  by_cases hval : s.scope.inFunction ∧ parameterHead.isPrefixOf marker ∧ Scan.named parameterHead marker
  swap
  · rw [if_neg fun hc => hval ⟨hc.2.1, hc.2.2.2.1, hc.2.2.2.2.1⟩, if_neg hval]
    exact h
  rw [if_pos hval]
  rcases Option.eq_none_or_eq_some s.quoteEnd with he | ⟨e, he⟩
  · have hlimit : s.limit (p ++ thinkClose ++ w) = (p ++ thinkClose ++ w).length := by
      rw [Scan.limit, he, Option.getD_none]
    obtain ⟨ho, hc⟩ := hr.drop h.low
    have hlow := xmlReasoningValueEnd_le (p.drop s.pos ++ thinkClose ++ w) s.pos 0 none s.pos le_rfl
      (fun _ hn => by cases hn)
    have hle := reasoningValueEnd_le hw (p.drop s.pos) s.pos ho hc
    rw [List.length_drop] at hle
    rw [if_neg (fun hc => by rw [he] at hc; cases hc.2.2.1), if_pos ⟨h.tool htool, he⟩, hlimit,
      (region_reasoning h.pos).1]
    have hin := h.pos
    exact h.move (h.low.trans hlow) (by omega)
  · -- in a quoted example the value ends at its close, and without one at the quote
    have hiff := xmlValueEnd_le_iff hw s.pos h.limit
    rw [if_neg (c := s.scope.toolInReasoning = true ∧ s.quoteEnd = none)
      (fun hc => by rw [he] at hc; cases hc.2)]
    split
    · next hover =>
      by_contra hle
      exact hiff.mp (not_lt.mp hle) ⟨hover.1, hover.2.2.2.2.2⟩
    · next hover =>
      refine h.move ?_ (hiff.mpr fun hc =>
        hover ⟨hc.1, hval.1, by rw [he]; rfl, hval.2.1, hval.2.2, hc.2⟩)
      cases hz : xmlValueEnd (p ++ thinkClose ++ w) s.pos (s.limit (p ++ thinkClose ++ w)) with
      | none => exact h.low.trans hpos
      | some z => exact h.low.trans (xmlValueEnd_le hz)

/-! ## 7. The run over the reasoning -/

theorem Scan.runsOn_iff {text : List Char} (stop : Nat) {start : Nat} {marker : List Char}
    {s : Scan}
    (h : searchToken text s.pos (s.limit text) = some (start, marker)) :
    s.runsOn text stop = true ↔ stop < s.limit text ∧
      (s.scope.jsonDepth ≠ 0 ∧ marker = ['"'] ∧
          s.stringRunsOn text stop start (s.limit text) = true ∨
        s.scope.jsonDepth = 0 ∧ s.scope.inTool = true ∧ s.scope.inFunction = true ∧
          s.quoteEnd.isSome = true ∧ parameterHead.isPrefixOf marker = true ∧
          Scan.named parameterHead marker = true ∧
          xmlValueEnd text (start + marker.length) stop = none) := by
  unfold Scan.runsOn
  rw [h]
  by_cases hdepth : s.scope.jsonDepth = 0 <;>
    simp [hdepth, and_assoc, Option.isNone_iff_eq_none]

/-- **A token of the reasoning** runs over the boundary, or leaves the scanner in front of it. -/
theorem Inside.onMarker (isAlnum : Char → Bool) {s : Scan}
    (h : Inside (p ++ thinkClose ++ w) low p.length s)
    (hw : Silent w) (hr : Mentions p low) (hends : EndsIn (· ≤ p.length) ends) {start : Nat}
    {marker : List Char}
    (hs : searchToken (p ++ thinkClose ++ w) s.pos (s.limit (p ++ thinkClose ++ w)) =
      some (start, marker))
    (hstop : start + marker.length ≤ p.length) (hopen : marker ≠ thinkOpen)
    (hclose : marker ≠ thinkClose) :
    ∃ s', Scan.onMarker isAlnum (p ++ thinkClose ++ w) ends
        { s with pos := start + marker.length } start (s.limit (p ++ thinkClose ++ w)) marker =
          (s', none) ∧
      if s.runsOn (p ++ thinkClose ++ w) p.length = true then p.length < s'.pos
      else Inside (p ++ thinkClose ++ w) low p.length s' := by
  have hlow : low ≤ start := h.low.trans (searchToken_some hs).1
  have hq : Inside (p ++ thinkClose ++ w) low p.length { s with pos := start + marker.length } :=
    h.move (by omega) hstop
  have hruns := Scan.runsOn_iff p.length hs
  unfold Scan.onMarker
  split
  · refine ⟨_, rfl, ?_⟩
    rw [if_neg fun hc => by simpa [parameterHead] using (hruns.mp hc).2]
    split
    · exact hq.openQuote hends _ _
    · exact hq
  · refine ⟨_, rfl, ?_⟩
    rw [if_neg fun hc => by simpa [parameterHead] using (hruns.mp hc).2]
    split
    · exact hq.openQuote hends _ _
    · exact hq
  by_cases hstring : s.scope.jsonDepth ≠ 0 ∧ marker = ['"']
  · obtain ⟨hdepth, rfl⟩ := hstring
    refine ⟨_, if_pos ⟨hdepth, rfl⟩, ?_⟩
    have hjson := hq.jsonString isAlnum hr rfl hlow h.limit
    have hcond : s.runsOn (p ++ thinkClose ++ w) p.length = true ↔
        p.length < s.limit (p ++ thinkClose ++ w) ∧ Scan.stringRunsOn (p ++ thinkClose ++ w) p.length
          start (s.limit (p ++ thinkClose ++ w)) { s with pos := start + 1 } = true := by
      rw [hruns]
      exact and_congr_right fun _ => ⟨fun hc => hc.elim (·.2.2) fun hc => absurd hc.1 hdepth,
        fun hc => .inl ⟨hdepth, rfl, hc⟩⟩
    rw [if_congr hcond rfl rfl]
    exact hjson
  rw [if_neg hstring]
  -- from here on only a parameter of a call runs over the boundary
  by_cases htag : s.scope.jsonDepth = 0 ∧ marker ≠ toolOpen ∧ marker ≠ toolClose ∧
      Scan.opensProse marker = false ∧ s.scope.inTool = true
  · obtain ⟨hdepth, htool, hend, hprose, hin⟩ := htag
    refine ⟨Scan.xmlTag (p ++ thinkClose ++ w) { s with pos := start + marker.length }
      (s.limit (p ++ thinkClose ++ w)) marker, ?_, ?_⟩
    · rw [if_neg (by rw [hprose]; simp), if_neg hopen, if_neg hclose, if_neg htool, if_neg hend,
        if_neg (by simpa using hdepth), if_pos hin]
    · have hxml := hq.xmlTag hw hr hin (Scan.searchToken_stop hs).2.2.1 marker
      have hcond : s.runsOn (p ++ thinkClose ++ w) p.length = true ↔
          p.length < s.limit (p ++ thinkClose ++ w) ∧ s.scope.inFunction = true ∧
            s.quoteEnd.isSome = true ∧ parameterHead.isPrefixOf marker = true ∧
            Scan.named parameterHead marker = true ∧
            xmlValueEnd (p ++ thinkClose ++ w) (start + marker.length) p.length = none := by
        rw [hruns]
        exact and_congr_right fun _ => ⟨fun hc => hc.elim (fun hc => absurd hdepth hc.1) fun hc =>
          hc.2.2, fun hc => .inr ⟨hdepth, hin, hc⟩⟩
      rw [if_congr hcond rfl rfl]
      exact hxml
  · have hfalse : s.runsOn (p ++ thinkClose ++ w) p.length = false := by
      rw [Bool.eq_false_iff, Ne, hruns]
      rintro ⟨-, ⟨hdepth, hm, -⟩ | ⟨hdepth, hin, -, -, hpar, -⟩⟩
      · exact hstring ⟨hdepth, hm⟩
      · obtain ⟨rest, rfl⟩ := List.isPrefixOf_iff_prefix.mp hpar
        exact htag ⟨hdepth, by simp [parameterHead, toolOpen], by simp [parameterHead, toolClose],
          rfl, hin⟩
    rw [hfalse]
    simp only [Bool.false_eq_true, if_false, if_neg hopen, if_neg hclose]
    split
    · exact ⟨_, rfl, hq.proseQuote hends _ _⟩
    · next hprose =>
      split
      · exact ⟨_, rfl, hq.toolTag _ h.limit⟩
      · next htool =>
        split
        · exact ⟨_, rfl, hq.low, hq.pos, hq.reasoning, fun hc => (by cases hc), hq.state, hq.quote⟩
        · next hend =>
          split
          · exact ⟨_, rfl, hq.jsonBracket _⟩
          · next hdepth =>
            have hzero : s.scope.jsonDepth = 0 := by_contra hdepth
            split
            · next hin =>
              exact absurd ⟨hzero, htool, hend,
                Bool.eq_false_iff.mpr fun hc => hprose ⟨hzero, hc⟩, hin⟩ htag
            · exact ⟨_, rfl, hq⟩

/-- **A turn in the reasoning** runs over the boundary, stays in front of it, or reads it. -/
theorem Inside.step (isAlnum : Char → Bool) {s : Scan}
    (h : Inside (p ++ thinkClose ++ w) low p.length s) (hw : Silent w)
    (hr : Mentions p low) (hends : EndsIn (· ≤ p.length) ends) :
    (∃ s', s.step isAlnum (p ++ thinkClose ++ w) ends = some (s', none) ∧
      if s.leaveQuote.runsOn (p ++ thinkClose ++ w) p.length = true then p.length < s'.pos
      else Inside (p ++ thinkClose ++ w) low p.length s') ∨
    s.leaveQuote.runsOn (p ++ thinkClose ++ w) p.length = false ∧
      ∃ q : Scan, s.step isAlnum (p ++ thinkClose ++ w) ends =
        some (Scan.thinkTag { q with pos := p.length + 8 } false,
          some ⟨p.length, p.length + 8, false⟩) := by
  have hlen := text_length p w
  have hclose : thinkClose ∈ literalTags := by decide
  have hq := h.leaveQuote
  have hahead : ∀ e, s.leaveQuote.quoteEnd = some e → s.leaveQuote.pos < e := fun e he => by
    rw [Scan.leaveQuote_pos]
    exact Scan.leaveQuote_end he
  unfold Scan.step
  rw [if_neg (by have := h.pos; omega)]
  simp only
  generalize s.leaveQuote = q at hq hahead
  have hlow := hq.low
  cases hsearch : searchToken (p ++ thinkClose ++ w) q.pos (q.limit (p ++ thinkClose ++ w)) with
  | none =>
      -- the example that bounds the search ends in front of the boundary
      have hruns : q.runsOn (p ++ thinkClose ++ w) p.length = false := by
        unfold Scan.runsOn
        rw [hsearch]
      have hfront : q.limit (p ++ thinkClose ++ w) ≤ p.length := by
        refine hq.limit.resolve_right fun hge => ?_
        have hnone := searchToken_none hsearch p.length hq.pos (by omega)
        rw [tokenAt_tag hclose (by rw [hge, hlen]; exact Nat.add_le_add_left (Nat.le_add_right _ _) _)]
          at hnone
        cases hnone
      rcases Option.eq_none_or_eq_some q.quoteEnd with he | ⟨e, he⟩
      · rw [Scan.limit, he, Option.getD_none] at hfront
        omega
      · rw [Scan.limit, he, Option.getD_some] at hfront
        have := hahead e he
        refine .inl ⟨{ q with pos := e }, by rw [he], ?_⟩
        rw [hruns]
        exact hq.move (by omega) hfront
  | some found =>
      obtain ⟨start, marker⟩ := found
      obtain ⟨hpos, hlt, htok, hfirst⟩ := searchToken_some hsearch
      have hlimit : q.limit (p ++ thinkClose ++ w) ≤ p.length ∨
          p.length + thinkClose.length ≤ q.limit (p ++ thinkClose ++ w) :=
        hq.limit.imp_right fun he => by
          rw [he, hlen]
          exact Nat.add_le_add_left (Nat.le_add_right _ _) _
      have hstart : start ≤ p.length := by
        by_contra hgt
        have hge := hlimit.resolve_left (by omega)
        have hnone := hfirst p.length hq.pos (by omega)
        rw [tokenAt_tag hclose hge] at hnone
        cases hnone
      rcases Nat.eq_or_lt_of_le hstart with rfl | hstart
      · right
        have hge := hlimit.resolve_left (by omega)
        rw [tokenAt_tag hclose hge, Option.some.injEq] at htok
        subst htok
        refine ⟨?_, q, congrArg some (Scan.onMarker_boundary _ _ _ _ false)⟩
        rw [Bool.eq_false_iff, Ne, Scan.runsOn_iff _ hsearch]
        rintro ⟨-, ⟨-, hm, -⟩ | ⟨-, -, -, -, hm, -⟩⟩
        · cases hm
        · revert hm
          decide
      · left
        have hmarker := token_in_front hclose hstart hlimit htok
        have hinfix : marker <:+: p.drop q.pos := by
          rw [show start = q.pos + (start - q.pos) by omega, ← List.drop_drop] at hmarker
          exact hmarker.isInfix.trans (List.drop_suffix _ _).isInfix
        have hstop : start + marker.length ≤ p.length := by
          have := hmarker.length_le
          rw [List.length_drop] at this
          omega
        obtain ⟨ho, hc⟩ := hr.drop hq.low
        obtain ⟨s', hs', hin⟩ := hq.onMarker isAlnum hw hr hends hsearch hstop
          (fun e => ho (e ▸ hinfix)) (fun e => hc (e ▸ hinfix))
        exact ⟨s', congrArg some hs', hin⟩

/-- A turn that ran over the boundary has lost it. -/
theorem markers_past (hw : Silent w) {s : Scan} (hpos : p.length < s.pos) :
    s.markers isAlnum (p ++ thinkClose ++ w) ends = [] := by
  refine List.eq_nil_iff_forall_not_mem.mpr fun m hm => ?_
  obtain ⟨hlow, hstand⟩ := Scan.markersFrom_stand _ s m hm
  rcases hstand with ⟨-, h⟩ | ⟨-, h⟩
  · exact no_tag_past hw (by decide) (by omega) h
  · exact no_tag_past hw (by decide) (by omega) h

/-- **What the scanner yields behind the opener**: the boundary, unless the turn in front of it runs
    on. -/
theorem Inside.markers (isAlnum : Char → Bool) {s : Scan}
    (h : Inside (p ++ thinkClose ++ w) low p.length s)
    (hw : Silent w) (hr : Mentions p low) (hends : EndsIn (· ≤ p.length) ends) :
    s.markers isAlnum (p ++ thinkClose ++ w) ends =
      if (s.upTo isAlnum (p ++ thinkClose ++ w) ends p.length).runsOn (p ++ thinkClose ++ w)
          p.length = true then []
      else [⟨p.length, p.length + 8, false⟩] := by
  rcases h.step isAlnum hw hr hends with ⟨s', hs, hnext⟩ | ⟨hruns, q, hs⟩
  · rw [Scan.markers_step hs, Option.toList_none, List.nil_append]
    by_cases hruns : s.leaveQuote.runsOn (p ++ thinkClose ++ w) p.length = true
    · rw [if_pos hruns] at hnext
      rw [Scan.upTo_last hs hnext, if_pos hruns, markers_past hw hnext]
    · rw [if_neg hruns] at hnext
      have hpos := Scan.step_pos hs
      have hle := hnext.pos
      rw [(Scan.Reaches.turn hs (.here _)).upTo hle]
      exact Inside.markers isAlnum hnext hw hr hends
  · have hpast : p.length < (Scan.thinkTag { q with pos := p.length + 8 } false).pos :=
      Nat.lt_add_of_pos_right (by decide)
    rw [Scan.markers_step hs, Scan.upTo_last hs hpast, hruns, if_neg Bool.false_ne_true,
      markers_past hw hpast]
    rfl
termination_by p.length - s.pos

end Inside

/-! ## 8. The completion -/

section Completion

variable (isAlnum : Char → Bool) {r w : List Char}

/-- The turn in front of the boundary of a reasoned completion runs over it. -/
def boundaryLost (r w : List Char) : Bool :=
  let text := reasoned r ++ w
  let stop := 7 + r.length
  (Scan.initial.upTo isAlnum text (quotedSpanEnds isAlnum text) stop).runsOn text stop

/-- The scanner behind a leading opener. -/
def Scan.opened : Scan := Scan.thinkTag { Scan.initial with pos := 7 } true

/-- The opener is read first. -/
theorem initial_opens {text : List Char} (rest : List Char) {ends : Dict Nat Nat}
    (htext : text = thinkOpen ++ rest) (hends : SpanEnds text ends) :
    Scan.initial.step isAlnum text ends = some (.opened, some ⟨0, 7, true⟩) := by
  have htag : text = [] ++ boundary true ++ rest := htext
  subst htag
  rcases Before.step isAlnum (boundary_mem true) (Before.initial _ []) hends
    (NoMarkup.of_notMem (by simp)) with ⟨s', hs, hb, -⟩ | ⟨-, hs⟩
  · have := Scan.step_pos hs
    exact absurd hb.pos (by simp only [List.length_nil]; omega)
  · rw [Scan.readTag, Scan.onMarker_boundary] at hs
    exact hs

/-- **The markers of the completion**: the opener, and the boundary where no turn runs over it. -/
theorem mentions_markers (ho : ¬ thinkOpen <:+: r) (hc : ¬ thinkClose <:+: r) (hw : Silent w) :
    reasoningMarkers isAlnum (reasoned r ++ w) = ⟨0, 7, true⟩ ::
      if boundaryLost isAlnum r w = true then [] else [⟨7 + r.length, 15 + r.length, false⟩] := by
  have hspans := quotedSpanEnds_spec isAlnum (reasoned r ++ w)
  have hin : EndsIn (· ≤ (thinkOpen ++ r).length) (quotedSpanEnds isAlnum (reasoned r ++ w)) :=
    mentions_ends hw isAlnum
  have hlen : (thinkOpen ++ r).length = 7 + r.length := List.length_append
  have hopen := initial_opens isAlnum (r ++ thinkClose ++ w)
    (by simp only [reasoned, List.append_assoc]) hspans
  have hstart : Inside (thinkOpen ++ r ++ thinkClose ++ w) 7 (thinkOpen ++ r).length .opened :=
    ⟨le_rfl, by rw [hlen]; exact Nat.le_add_right _ _, rfl,
      fun hn => (by cases hn), fun hn => (by cases hn), fun _ hn => (by cases hn)⟩
  have hmarkers := hstart.markers isAlnum hw ⟨ho, hc⟩ hin
  rw [hlen] at hmarkers
  have hupTo := (Scan.Reaches.turn hopen (.here _)).upTo
    (show Scan.opened.pos ≤ 7 + r.length from Nat.le_add_right _ _)
  have hlost : boundaryLost isAlnum r w =
      (Scan.opened.upTo isAlnum (reasoned r ++ w) (quotedSpanEnds isAlnum (reasoned r ++ w))
        (7 + r.length)).runsOn (reasoned r ++ w) (7 + r.length) :=
    congrArg (Scan.runsOn (reasoned r ++ w) (7 + r.length)) hupTo
  rw [reasoningMarkers, Scan.markers_step hopen, hlost]
  refine congrArg (List.cons _) (hmarkers.trans ?_)
  rw [show 15 + r.length = 7 + r.length + 8 by omega]
  rfl

/-- **A mention without an object hides nothing**: where no `<tool_call>` of the reasoning is followed
    by whitespace and `{`, no turn runs over the boundary. -/
theorem boundaryLost_of_no_object (hw : Silent w)
    (hobject : ∀ spaces, spaces.all isSpace = true → ¬ toolOpen ++ spaces ++ ['{'] <:+: r) :
    boundaryLost isAlnum r w = false := by
  have hends : EndsIn (· ≤ (thinkOpen ++ r).length) (quotedSpanEnds isAlnum (reasoned r ++ w)) :=
    mentions_ends hw isAlnum
  have hlen : (thinkOpen ++ r).length = 7 + r.length := List.length_append
  have hopen := initial_opens isAlnum (r ++ thinkClose ++ w)
    (by simp only [reasoned, List.append_assoc]) (quotedSpanEnds_spec isAlnum (reasoned r ++ w))
  have hupTo := (Scan.Reaches.turn hopen (.here _)).upTo
    (show Scan.opened.pos ≤ 7 + r.length from Nat.le_add_right _ _)
  have hno : NoObject (reasoned r ++ w) 7 (7 + r.length) := by
    intro j n hj htool hstart
    by_contra hin
    obtain ⟨spaces, rest, hrest, hspaces, rfl⟩ := objectStart_eq_some_iff.mp hstart
    -- the tag, the whitespace and the brace all lie in the reasoning
    refine hobject spaces hspaces ?_
    have htext : (reasoned r ++ w).drop j = toolOpen ++ spaces ++ ['{'] ++ rest := by
      rw [List.prefix_iff_eq_append.mp htool |>.symm, List.drop_drop, hrest]
      simp only [List.append_assoc, List.singleton_append]
    have hsplit : (reasoned r ++ w).drop j = r.drop (j - 7) ++ (thinkClose ++ w) := by
      obtain ⟨k, rfl⟩ : ∃ k, j = thinkOpen.length + k := ⟨j - 7, (Nat.add_sub_cancel' hj).symm⟩
      have hk : k ≤ r.length := by
        have htag : toolOpen.length = 11 := rfl
        have hsix : thinkOpen.length = 7 := rfl
        omega
      rw [← List.drop_drop, reasoned, List.append_assoc, List.append_assoc, List.drop_left,
        List.drop_append_of_le_length hk]
      exact congrArg (List.drop · r ++ _) (Nat.add_sub_cancel_left 7 k).symm
    have hshort : (toolOpen ++ spaces ++ ['{']).length ≤ (r.drop (j - 7)).length := by
      simp only [List.length_append, List.length_drop, List.length_singleton] at hin ⊢
      omega
    have hbegins := List.prefix_of_prefix_length_le
      (htext ▸ List.prefix_append (toolOpen ++ spaces ++ ['{']) rest)
      (hsplit ▸ List.prefix_append (r.drop (j - 7)) (thinkClose ++ w)) hshort
    exact hbegins.isInfix.trans (List.drop_suffix _ _).isInfix
  have hstart : Objectless (quotedSpanEnds isAlnum (reasoned r ++ w)) 7 Scan.opened :=
    ⟨le_rfl, rfl, rfl, fun _ h => by cases h⟩
  have hfront := hstart.upTo isAlnum hno
  unfold boundaryLost
  simp only
  rw [hupTo]
  generalize Scan.opened.upTo isAlnum (reasoned r ++ w) _ (7 + r.length) = s at hfront
  unfold Scan.runsOn
  split
  · rfl
  · rw [if_neg (by simpa using hfront.depth)]
    cases he : s.quoteEnd with
    | none => simp
    | some e =>
      obtain ⟨-, i, -, -, hget⟩ := hfront.quote e he
      have hle := hends i e hget
      simp only [Scan.limit, he, Option.getD_some, Bool.and_eq_false_iff, decide_eq_false_iff_not]
      exact .inl (by omega)

/-- Over blank reasoning nothing runs. -/
theorem boundaryLost_blank (hblank : stripChars r = []) (hw : Silent w) :
    boundaryLost isAlnum r w = false := by
  refine boundaryLost_of_no_object isAlnum hw fun spaces _ hin => ?_
  have hspace := stripChars_eq_nil hblank '<' (hin.subset List.mem_cons_self)
  revert hspace
  decide

/-- **Mentions of tool markup hide the end of reasoning** exactly where the turn in front of it runs
    over it. -/
theorem mentions_hidden_iff (r w : List Char) (ho : ¬ thinkOpen <:+: r) (hc : ¬ thinkClose <:+: r)
    (hw : Silent w) :
    (stripReasoning isAlnum (reasoned r ++ w) = lstripNewlines w ∧
      extractReasoning isAlnum (reasoned r ++ w) =
        if stripChars r = [] then none else some (stripChars r)) ↔
      boundaryLost isAlnum r w = false := by
  have hmarkers := mentions_markers isAlnum ho hc hw
  have hlen := reasoned_length r
  have hbody : region (reasoned r ++ w) 7 (7 + r.length) = r := by
    have hcut : (thinkOpen ++ r).length = 7 + r.length := List.length_append
    unfold region
    rw [reasoned, List.append_assoc, ← hcut, List.take_left]
    rfl
  constructor
  · rintro ⟨-, hextract⟩
    by_contra hlost
    rw [Bool.not_eq_false] at hlost
    have hr : stripChars r ≠ [] := fun hb => by
      rw [boundaryLost_blank isAlnum hb hw] at hlost
      cases hlost
    have hspans : thinkSpans isAlnum (reasoned r ++ w) =
        [⟨0, 7, none, (reasoned r ++ w).length⟩] := by
      unfold thinkSpans
      rw [hmarkers, if_pos hlost]
      rfl
    unfold extractReasoning at hextract
    rw [hspans, if_neg hr] at hextract
    cases hextract
  · intro hkept
    have hspans : thinkSpans isAlnum (reasoned r ++ w) =
        [⟨0, 7, some (7 + r.length), 15 + r.length⟩] := by
      unfold thinkSpans
      rw [hmarkers, hkept]
      rfl
    constructor
    · unfold stripReasoning
      rw [hspans]
      simp only [visible, afterSpan, if_true]
      rw [← List.drop_drop, ← hlen, List.drop_left, drop_newlines]
      simp [region]
    · unfold extractReasoning
      rw [hspans]
      simp only [hbody]
      cases hs : stripChars r with
      | nil => rfl
      | cons c l => rfl

/-- A header in a code span, and a bare one. -/
def bareMention : List Char := "Use \x60<tool_call>\x7b\x60 or <tool_call>".toList

/-- Prose without a token. -/
def answer : List Char := "done".toList

theorem mentions_hidden_bare :
    (stripReasoning Char.isAlphanum (reasoned bareMention ++ answer) = lstripNewlines answer ∧
      extractReasoning Char.isAlphanum (reasoned bareMention ++ answer) =
        if stripChars bareMention = [] then none else some (stripChars bareMention)) ↔
      boundaryLost Char.isAlphanum bareMention answer = false :=
  mentions_hidden_iff Char.isAlphanum bareMention answer (by decide) (by decide)
    (silent_of_lt (by decide))

/-- An unfinished call with an argument whose key is not closed. -/
def openMention : List Char := "<tool_call>\x7b\"arguments\": \x7b\"a".toList

/-- The answer behind it is gone: the argument string reads over `</think>`. -/
theorem mention_hides :
    ¬ thinkOpen <:+: openMention ∧ ¬ thinkClose <:+: openMention ∧ Silent answer ∧
      ¬ (stripReasoning Char.isAlphanum (reasoned openMention ++ answer) = lstripNewlines answer ∧
        extractReasoning Char.isAlphanum (reasoned openMention ++ answer) =
          if stripChars openMention = [] then none else some (stripChars openMention)) :=
  ⟨by decide, by decide, silent_of_lt (by decide), by decide +kernel⟩

end Completion

end RolloutProxy.Reasoning
