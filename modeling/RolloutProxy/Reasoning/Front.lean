/-
  File:      RolloutProxy/Reasoning/Front.lean
  Subject:   THE SCANNER IN FRONT OF A TAG: a text `p ++ t ++ r`, where `t` is one of the tags that
             are spelled out, read from a state outside every call.

  * No quoted example ends inside the tag (`SpanEnd.outside`).
  * As long as nothing but quotes, code delimiters and brackets stands between the position and
    the tag, the scanner stays outside every call (`Before`) and comes to the tag
    (`Before.reaches`), with the quoted example that is open there or without.
  * As long as no `<tool_call>` is followed by an object, every quoted example is one of the table
    (`Objectless.upTo`).
-/
import RolloutProxy.Reasoning.Scanner

namespace RolloutProxy.Reasoning

/-! ## 1. Runs of the scanner -/

section Runs

variable (isAlnum : Char → Bool) (text : List Char) (ends : Dict Nat Nat)

namespace Scan

/-- Turns of the loop, with the markers they yield. -/
inductive Reaches : Scan → List Marker → Scan → Prop where
  | here (s : Scan) : Reaches s [] s
  | turn {s s' s'' : Scan} {m : Option Marker} {ms : List Marker}
      (hs : s.step isAlnum text ends = some (s', m)) (h : Reaches s' ms s'') :
      Reaches s (m.toList ++ ms) s''

/-- The scanner in front of position `stop`: the turns that stay in front of it are done. -/
def upToFrom (stop : Nat) : Nat → Scan → Scan
  | 0, s => s.leaveQuote
  | fuel + 1, s =>
    match s.step isAlnum text ends with
    | none => s.leaveQuote
    | some (s', _) => if s'.pos ≤ stop then upToFrom stop fuel s' else s.leaveQuote

/-- The turns are no more than the characters. -/
def upTo (stop : Nat) (s : Scan) : Scan := upToFrom isAlnum text ends stop text.length s

variable {isAlnum text ends}

theorem Reaches.trans {s s' s'' : Scan} {ms ms' : List Marker} (h : Reaches isAlnum text ends s ms s')
    (h' : Reaches isAlnum text ends s' ms' s'') : Reaches isAlnum text ends s (ms ++ ms') s'' := by
  induction h with
  | here => exact h'
  | turn hs _ ih =>
    rw [List.append_assoc]
    exact .turn hs (ih h')

theorem Reaches.pos {s s' : Scan} {ms : List Marker} (h : Reaches isAlnum text ends s ms s') :
    s.pos ≤ s'.pos := by
  induction h with
  | here => exact le_rfl
  | turn hs _ ih => exact (step_pos hs).le.trans ih

/-- The markers of a run come first. -/
theorem Reaches.markers {s s' : Scan} {ms : List Marker} (h : Reaches isAlnum text ends s ms s') :
    s.markers isAlnum text ends = ms ++ s'.markers isAlnum text ends := by
  induction h with
  | here => rfl
  | turn hs _ ih => rw [markers_step hs, ih, List.append_assoc]

theorem upToFrom_eq {stop : Nat} : ∀ (fuel fuel' : Nat) (s : Scan), text.length ≤ s.pos + fuel →
    text.length ≤ s.pos + fuel' →
      upToFrom isAlnum text ends stop fuel s = upToFrom isAlnum text ends stop fuel' s
  | 0, 0, _, _, _ => rfl
  | 0, fuel' + 1, s, h, _ => by
      unfold upToFrom
      rw [show s.step isAlnum text ends = none by unfold step; rw [if_pos (by omega)]]
  | fuel + 1, 0, s, _, h => by
      unfold upToFrom
      rw [show s.step isAlnum text ends = none by unfold step; rw [if_pos (by omega)]]
  | fuel + 1, fuel' + 1, s, h, h' => by
      unfold upToFrom
      cases hs : s.step isAlnum text ends with
      | none => rfl
      | some p =>
          have hpos : s.pos < p.1.pos := step_pos hs
          simp only
          rw [upToFrom_eq fuel fuel' p.1 (by omega) (by omega)]

/-- A run in front of a position is part of the way to it. -/
theorem Reaches.upTo {s s' : Scan} {ms : List Marker} {stop : Nat}
    (h : Reaches isAlnum text ends s ms s') (hstop : s'.pos ≤ stop) :
    s.upTo isAlnum text ends stop = s'.upTo isAlnum text ends stop := by
  induction h with
  | here => rfl
  | turn hs h ih =>
    have hpos := step_pos hs
    rw [← ih hstop]
    unfold Scan.upTo
    rw [upToFrom_eq text.length (text.length + 1) _ (by omega) (by omega), upToFrom, hs]
    simp only
    rw [if_pos (h.pos.trans hstop)]

/-- A turn that leaves what is in front of a position is the end of the way to it. -/
theorem upTo_last {s s' : Scan} {m : Option Marker} {stop : Nat}
    (hs : s.step isAlnum text ends = some (s', m)) (hstop : stop < s'.pos) :
    s.upTo isAlnum text ends stop = s.leaveQuote := by
  unfold upTo
  rw [upToFrom_eq text.length (text.length + 1) _ (by omega) (by omega), upToFrom, hs]
  simp only
  rw [if_neg (by omega)]

end Scan

end Runs

/-! ## 2. A text with a tag -/

/-- A tag that starts in front of another one ends in front of it. -/
theorem tag_in_front {t p rest : List Char} (ht : '<' ∉ t.tail) {i : Nat} (hi : i < p.length)
    (h : t <+: (p ++ '<' :: rest).drop i) : t <+: p.drop i := by
  rw [List.drop_append_of_le_length hi.le] at h
  exact isPrefix_of_append_cons ht (by simpa using hi) h

/-- A tag occurs in the parts of a text around another tag, or at that tag. -/
theorem tag_infix {t p rest : List Char} (htail : '<' ∉ t.tail)
    (h : t <:+: p ++ '<' :: rest) : t <:+: p ∨ t <+: '<' :: rest ∨ t <:+: rest := by
  obtain ⟨a, b, hab⟩ := h
  have hp : t <+: (p ++ '<' :: rest).drop a.length := by
    rw [← hab, List.append_assoc, List.drop_left]
    exact List.prefix_append t b
  rcases Nat.lt_trichotomy a.length p.length with hlt | heq | hgt
  · exact .inl ((tag_in_front htail hlt hp).isInfix.trans (List.drop_suffix _ _).isInfix)
  · rw [heq, List.drop_left] at hp
    exact .inr (.inl hp)
  · rw [show a.length = p.length + (a.length - p.length - 1 + 1) by omega, ← List.drop_drop,
      List.drop_left, List.drop_succ_cons] at hp
    exact .inr (.inr (hp.isInfix.trans (List.drop_suffix _ _).isInfix))

/-- The characters of a tag end no quoted example, and the first one alone is a `<`. -/
theorem literalTags_chars : ∀ t ∈ literalTags, t.head? = some '<' ∧
    ∀ c ∈ t, isQuote c = false ∧ c ≠ '`' ∧ c ≠ '\n' := by
  have hall : literalTags.all (fun t => t.head? == some '<' &&
      t.all fun c => !isQuote c && (c != '`' && c != '\n')) = true := by decide
  intro t ht
  have hchecks := List.all_eq_true.mp hall t ht
  simpa only [Bool.and_eq_true, beq_iff_eq, List.all_eq_true, Bool.not_eq_true', bne_iff_ne] using
    hchecks

/-- A tag starts with its `<`. -/
theorem literalTag_cons {t : List Char} (ht : t ∈ literalTags) : ∃ t', t = '<' :: t' ∧ '<' ∉ t' := by
  obtain ⟨hne, htail⟩ := literalTags_tail t ht
  obtain ⟨hhead, -⟩ := literalTags_chars t ht
  obtain ⟨c, t', rfl⟩ := List.exists_cons_of_ne_nil hne
  cases hhead
  exact ⟨t', rfl, htail⟩

/-- No occurrence of `t` starts in `l`, whatever follows. -/
def Skips (t l : List Char) : Prop := ∀ rest k, k < l.length → ¬ t <+: (l ++ rest).drop k

theorem Skips.append {t l m : List Char} (hl : Skips t l) (hm : Skips t m) : Skips t (l ++ m) := by
  intro rest k hk hp
  rcases Nat.lt_or_ge k l.length with hlt | hge
  · rw [List.append_assoc] at hp
    exact hl _ k hlt hp
  · rw [List.length_append] at hk
    rw [show k = l.length + (k - l.length) by omega, ← List.drop_drop, List.append_assoc,
      List.drop_left] at hp
    exact hm rest _ (by omega) hp

/-- A character that is not in a text is skipped in it. -/
theorem skips_of_notMem {c : Char} {t l : List Char} (hc : c ∉ l) : Skips (c :: t) l := by
  rintro rest k hk ⟨u, hu⟩
  have hget : (l ++ rest)[k]? = some c := by
    rw [← List.head?_drop, ← hu]
    rfl
  rw [List.getElem?_append_left hk] at hget
  exact hc (List.mem_of_getElem? hget)

/-- A tag that is not `t` holds none, since a tag has one `<`. -/
theorem Skips.tag {t l : List Char} (ht : t.head? = some '<') (hl : '<' ∉ l.tail)
    (hne : ∀ rest, ¬ t <+: l ++ rest) : Skips t l := by
  intro rest k hk hp
  cases k with
  | zero => exact hne rest hp
  | succ k =>
      obtain ⟨t', rfl⟩ : ∃ t', t = '<' :: t' := by
        cases t with
        | nil => cases ht
        | cons c t' => cases ht; exact ⟨t', rfl⟩
      have hget : (l ++ rest)[k + 1]? = some '<' := by
        obtain ⟨u, hu⟩ := hp
        rw [← List.head?_drop, ← hu]
        rfl
      rw [List.getElem?_append_left hk] at hget
      refine hl (List.mem_of_getElem? (i := k) ?_)
      rw [List.getElem?_tail]
      exact hget

/-- Where the search for a closer stops, one stands. -/
theorem xmlValueEnd_some {text : List Char} {pos limit z : Nat}
    (h : xmlValueEnd text pos limit = some z) :
    ∃ t ∈ xmlClosers, pos ≤ z ∧ z < limit ∧ t <+: text.drop z := by
  obtain ⟨p, hp, rfl⟩ := Option.map_eq_some_iff.mp h
  obtain ⟨hle, hlt, hm, -⟩ := searchFrom_some hp
  rw [region_length] at hlt
  split at hm
  · next hany =>
    obtain ⟨t, ht, hpre⟩ := List.any_eq_true.mp hany
    refine ⟨t, ht, hle, by omega, ?_⟩
    rw [region_drop, Nat.add_sub_cancel' hle] at hpre
    exact (List.isPrefixOf_iff_prefix.mp hpre).trans (drop_le_drop (List.take_prefix _ _) _)
  · cases hm

section Before

variable {isAlnum : Char → Bool} {p t r : List Char} {ends : Dict Nat Nat}

/-- **No quoted example ends inside a tag.** -/
theorem SpanEnd.outside (ht : t ∈ literalTags) {e : Nat} (h : SpanEnd (p ++ t ++ r) e) :
    e ≤ p.length ∨ p.length + t.length ≤ e := by
  by_contra hin
  obtain ⟨k, rfl⟩ : ∃ k, e = p.length + (k + 1) := ⟨e - p.length - 1, by omega⟩
  have hk : k + 1 < t.length := by omega
  have hget : ∀ j, j < t.length → (p ++ t ++ r)[p.length + j]? = t[j]? := fun j hj => by
    rw [List.append_assoc, List.getElem?_append_right (Nat.le_add_right _ _),
      Nat.add_sub_cancel_left, List.getElem?_append_left hj]
  have htag : ∀ {tail : List Char}, ¬ '<' :: tail <+: (p ++ t ++ r).drop (p.length + (k + 1)) := by
    rintro tail ⟨s, hs⟩
    have h0 : (p ++ t ++ r)[p.length + (k + 1)]? = some '<' := by
      rw [← List.head?_drop, ← hs]
      rfl
    rw [hget _ hk] at h0
    refine (literalTags_tail t ht).2 (List.mem_of_getElem? (i := k) ?_)
    rw [List.getElem?_tail]
    exact h0
  have hchars := (literalTags_chars t ht).2
  rcases h with ⟨i, c, he, hc, hq⟩ | hlen | hnl | hopen | hclose
  · have hi : i = p.length + k := by omega
    rw [hi, hget k (by omega)] at hc
    obtain ⟨h₁, h₂, -⟩ := hchars c (List.mem_of_getElem? hc)
    rcases hq with hq | hq
    · rw [h₁] at hq; cases hq
    · exact h₂ hq
  · simp only [List.length_append] at hlen
    omega
  · rw [hget _ hk] at hnl
    exact (hchars _ (List.mem_of_getElem? hnl)).2.2 rfl
  · exact htag hopen
  · exact htag hclose

/-! ## 3. In front of the tag -/

/-- The scanner in front of a tag: outside every call, and in no JSON example. -/
structure Before (text p : List Char) (s : Scan) : Prop where
  pos : s.pos ≤ p.length
  scope : s.scope = .plain
  jsonQuote : s.jsonQuote = false
  quote : ∀ e, s.quoteEnd = some e → SpanEnd text e ∧ s.quoteState = .plain

theorem Before.initial (text p : List Char) : Before text p .initial where
  pos := Nat.zero_le _
  scope := rfl
  jsonQuote := rfl
  quote := nofun

theorem Before.leaveQuote {text p : List Char} {s : Scan} (h : Before text p s) :
    Before text p s.leaveQuote := by
  unfold Scan.leaveQuote
  split
  · next e he =>
    split
    · exact ⟨h.pos, (h.quote e he).2, rfl, nofun⟩
    · exact h
  · exact h

/-- Behind a think tag the scanner is outside every call. -/
theorem Before.behind {text p q : List Char} {s : Scan} (h : Before text p s) (opens : Bool)
    {pos : Nat} (hpos : pos ≤ q.length) :
    Before text q (Scan.thinkTag { s with pos := pos } opens) :=
  ⟨hpos, by simp only [Scan.thinkTag, h.scope]; rfl, rfl, nofun⟩

/-- Outside a call, a marker that is no think tag and no `<tool_call>` can only open a quoted
    example. -/
theorem Before.onMarker (isAlnum : Char → Bool) {text p : List Char} {s : Scan}
    (h : Before text p s) (hends : SpanEnds text ends) (start limit : Nat) {marker : List Char}
    (hopen : marker ≠ thinkOpen) (hclose : marker ≠ thinkClose) (htool : marker ≠ toolOpen) :
    ∃ s', s.onMarker isAlnum text ends start limit marker = (s', none) ∧ Before text p s' ∧
      s'.pos = s.pos ∧ s'.inReasoning = s.inReasoning := by
  have hquote : ∀ marker, Before text p (s.openQuote ends start marker) := fun marker =>
    ⟨h.pos, h.scope, h.jsonQuote, fun e he => ⟨hends start e he, h.scope⟩⟩
  have hdepth : s.scope.jsonDepth = 0 := by rw [h.scope]; rfl
  have htoolless : s.scope.inTool = false := by rw [h.scope]; rfl
  unfold Scan.onMarker
  split
  · refine ⟨_, rfl, ?_⟩
    split
    · exact ⟨hquote _, rfl, rfl⟩
    · exact ⟨h, rfl, rfl⟩
  · refine ⟨_, rfl, ?_⟩
    split
    · exact ⟨hquote _, rfl, rfl⟩
    · exact ⟨h, rfl, rfl⟩
  · rw [if_neg (fun hc => hc.1 hdepth)]
    split
    · refine ⟨_, rfl, ?_⟩
      unfold Scan.proseQuote
      rw [h.jsonQuote, Bool.false_and, if_neg (by simp)]
      split
      · exact ⟨hquote _, rfl, rfl⟩
      · exact ⟨h, rfl, rfl⟩
    · split
      · refine ⟨_, rfl, ⟨h.pos, ?_, h.jsonQuote, h.quote⟩, rfl, rfl⟩
        rw [h.scope]
        rfl
      · rw [if_neg (fun hc => hc hdepth), htoolless]
        exact ⟨s, rfl, h, rfl, rfl⟩

/-- Nothing in `p` opens or closes reasoning, or begins a call. -/
structure NoMarkup (p : List Char) : Prop where
  opener : ¬ thinkOpen <:+: p
  closer : ¬ thinkClose <:+: p
  tool : ¬ toolOpen <:+: p

theorem NoMarkup.of_isInfix {p q : List Char} (h : NoMarkup p) (hq : q <:+: p) : NoMarkup q :=
  ⟨fun h' => h.opener (h'.trans hq), fun h' => h.closer (h'.trans hq),
    fun h' => h.tool (h'.trans hq)⟩

/-- A text without a `<` has no markup. -/
theorem NoMarkup.of_notMem {p : List Char} (h : '<' ∉ p) : NoMarkup p :=
  ⟨fun h' => h (h'.subset List.mem_cons_self), fun h' => h (h'.subset List.mem_cons_self),
    fun h' => h (h'.subset List.mem_cons_self)⟩

/-- The text in front of a limit behind the tag still has the tag. -/
theorem region_tag {pos limit : Nat} (hpos : pos ≤ p.length) (hlimit : p.length + t.length ≤ limit) :
    region (p ++ t ++ r) pos limit = p.drop pos ++ t ++ r.take (limit - (p.length + t.length)) := by
  have hlen : (p ++ t).length = p.length + t.length := List.length_append
  unfold region
  rw [List.take_append, List.take_of_length_le (by omega), hlen, List.append_assoc,
    List.drop_append_of_le_length hpos, List.append_assoc]

theorem tokenAt_tag (ht : t ∈ literalTags) {limit : Nat} (hlimit : p.length + t.length ≤ limit) :
    tokenAt (region (p ++ t ++ r) p.length limit) = some t := by
  rw [region_tag le_rfl hlimit, List.drop_length, List.nil_append]
  exact tokenAt_literal ht (List.prefix_append _ _)

/-- A token that starts in front of the tag ends in front of it. -/
theorem token_in_front (ht : t ∈ literalTags) {start limit : Nat} {marker : List Char}
    (hstart : start < p.length) (hlimit : limit ≤ p.length ∨ p.length + t.length ≤ limit)
    (h : tokenAt (region (p ++ t ++ r) start limit) = some marker) : marker <+: p.drop start := by
  obtain ⟨-, hp, htail⟩ := tokenAt_spec h
  rcases hlimit with hle | hge
  · rw [region, List.append_assoc, List.take_append_of_le_length hle] at hp
    exact hp.trans (drop_le_drop (List.take_prefix _ _) _)
  · obtain ⟨t', rfl, -⟩ := literalTag_cons ht
    rw [region_tag hstart.le hge, List.append_assoc] at hp
    exact isPrefix_of_append_cons htail (by simpa using hstart) hp

/-- The scanner at the tag: no quoted example, or one that ends behind the tag. -/
structure AtTag (text p t : List Char) (s : Scan) : Prop extends Before text p s where
  ahead : ∀ e, s.quoteEnd = some e → p.length + t.length ≤ e

/-- What the scanner does with the tag. -/
def Scan.readTag (isAlnum : Char → Bool) (text : List Char) (ends : Dict Nat Nat) (p t : List Char)
    (s : Scan) : Scan × Option Marker :=
  Scan.onMarker isAlnum text ends { s with pos := p.length + t.length } p.length (s.limit text) t

/-- **A turn in front of the tag** stays in front of it, or reads it. -/
theorem Before.step (isAlnum : Char → Bool) (ht : t ∈ literalTags) {s : Scan}
    (h : Before (p ++ t ++ r) p s) (hends : SpanEnds (p ++ t ++ r) ends) (hp : NoMarkup (p.drop s.pos)) :
    (∃ s', s.step isAlnum (p ++ t ++ r) ends = some (s', none) ∧ Before (p ++ t ++ r) p s' ∧
      s'.inReasoning = s.inReasoning) ∨
    AtTag (p ++ t ++ r) p t s.leaveQuote ∧ s.step isAlnum (p ++ t ++ r) ends =
      some (s.leaveQuote.readTag isAlnum (p ++ t ++ r) ends p t) := by
  have hq := h.leaveQuote
  have htpos : 0 < t.length := List.length_pos_iff.mpr (literalTags_tail t ht).1
  have hlen : (p ++ t ++ r).length = p.length + t.length + r.length := by
    simp only [List.length_append]
  have hreason : s.leaveQuote.inReasoning = s.inReasoning := by
    unfold Scan.leaveQuote
    split
    · split <;> rfl
    · rfl
  unfold Scan.step
  rw [if_neg (by have := h.pos; omega)]
  simp only
  rw [← Scan.leaveQuote_pos s] at hp
  generalize s.leaveQuote = q at hq hreason hp
  have hlimit : q.limit (p ++ t ++ r) ≤ p.length ∨ p.length + t.length ≤ q.limit (p ++ t ++ r) := by
    unfold Scan.limit
    cases he : q.quoteEnd with
    | none => right; simp only [Option.getD_none]; omega
    | some e => exact (hq.quote e he).1.outside ht
  cases hsearch : searchToken (p ++ t ++ r) q.pos (q.limit (p ++ t ++ r)) with
  | none =>
      -- the example that bounds the search ends in front of the tag
      have hfront : q.limit (p ++ t ++ r) ≤ p.length := by
        refine hlimit.resolve_right fun hge => ?_
        have hnone := searchToken_none hsearch p.length hq.pos (by omega)
        rw [tokenAt_tag ht hge] at hnone
        cases hnone
      unfold Scan.limit at hfront
      cases he : q.quoteEnd with
      | none => rw [he, Option.getD_none] at hfront; omega
      | some e =>
          rw [he, Option.getD_some] at hfront
          exact .inl ⟨_, rfl, ⟨hfront, hq.scope, hq.jsonQuote, fun e' he' => hq.quote e' (he.trans he')⟩,
            hreason⟩
  | some found =>
      obtain ⟨start, marker⟩ := found
      obtain ⟨hlow, hlt, htok, hfirst⟩ := searchToken_some hsearch
      have hstart : start ≤ p.length := by
        by_contra hgt
        have hge := hlimit.resolve_left (by omega)
        have hnone := hfirst p.length hq.pos (by omega)
        rw [tokenAt_tag ht hge] at hnone
        cases hnone
      rcases Nat.eq_or_lt_of_le hstart with rfl | hstart
      · right
        have hge := hlimit.resolve_left (by omega)
        rw [tokenAt_tag ht hge, Option.some.injEq] at htok
        subst htok
        refine ⟨⟨hq, fun e he => ?_⟩, rfl⟩
        rw [Scan.limit, he, Option.getD_some] at hge
        exact hge
      · left
        have hmarker := token_in_front ht hstart hlimit htok
        have hinfix : marker <:+: p.drop q.pos := by
          rw [show start = q.pos + (start - q.pos) by omega, ← List.drop_drop] at hmarker
          exact hmarker.isInfix.trans (List.drop_suffix _ _).isInfix
        have hstop : start + marker.length ≤ p.length := by
          have := hmarker.length_le
          rw [List.length_drop] at this
          omega
        have hpos : Before (p ++ t ++ r) p { q with pos := start + marker.length } :=
          ⟨hstop, hq.scope, hq.jsonQuote, hq.quote⟩
        obtain ⟨s', hs', hb, -, hr⟩ := hpos.onMarker isAlnum hends start
          (q.limit (p ++ t ++ r)) (fun e => hp.opener (e ▸ hinfix))
          (fun e => hp.closer (e ▸ hinfix)) (fun e => hp.tool (e ▸ hinfix))
        exact ⟨s', congrArg some hs', hb, hr.trans hreason⟩

/-- **The scanner comes to the tag**, and reads it. -/
theorem Before.reaches (isAlnum : Char → Bool) (ht : t ∈ literalTags) {text : List Char} {s : Scan}
    (htext : text = p ++ t ++ r) (h : Before text p s) (hends : SpanEnds text ends)
    (hp : NoMarkup (p.drop s.pos)) :
    ∃ s', s.Reaches isAlnum text ends [] s' ∧ s'.pos ≤ p.length ∧ AtTag text p t s'.leaveQuote ∧
      s'.leaveQuote.inReasoning = s.inReasoning ∧
      s'.step isAlnum text ends = some (s'.leaveQuote.readTag isAlnum text ends p t) := by
  subst htext
  rcases h.step isAlnum ht hends hp with ⟨s', hs, hb, hr⟩ | ⟨hat, hs⟩
  · have hpos := Scan.step_pos hs
    have hle := hb.pos
    have hp' : NoMarkup (p.drop s'.pos) := hp.of_isInfix <| by
      rw [show s'.pos = s.pos + (s'.pos - s.pos) by omega, ← List.drop_drop]
      exact (List.drop_suffix _ _).isInfix
    obtain ⟨s'', hreach, hle', hat, hr', hs'⟩ := Before.reaches isAlnum ht rfl hb hends hp'
    exact ⟨s'', .turn hs hreach, hle', hat, hr'.trans hr, hs'⟩
  · refine ⟨s, .here s, h.pos, hat, ?_, hs⟩
    unfold Scan.leaveQuote
    split
    · split <;> rfl
    · rfl
termination_by p.length - s.pos

/-- A think tag. -/
def boundary (opens : Bool) : List Char := if opens then thinkOpen else thinkClose

theorem boundary_mem (opens : Bool) : boundary opens ∈ literalTags := by
  cases opens <;> decide

/-- A think tag that is read is yielded, in every state. -/
theorem Scan.onMarker_boundary (text : List Char) (s : Scan) (start limit : Nat) (opens : Bool) :
    s.onMarker isAlnum text ends start limit (boundary opens) =
      (s.thinkTag opens, some ⟨start, s.pos, opens⟩) := by
  unfold Scan.onMarker
  cases opens with
  | true =>
    split
    · next hm => cases hm
    · next hm => cases hm
    · rw [if_neg (fun hc => by cases hc.2), if_neg (fun hc => by cases hc.2), if_pos (by decide)]
  | false =>
    split
    · next hm => cases hm
    · next hm => cases hm
    · rw [if_neg (fun hc => by cases hc.2), if_neg (fun hc => by cases hc.2),
        if_neg (by decide), if_pos (by decide)]

/-- **A think tag behind prose is the next marker.** -/
theorem Before.yields (isAlnum : Char → Bool) (opens : Bool) {text : List Char} {s : Scan}
    (htext : text = p ++ boundary opens ++ r) (h : Before text p s) (hends : SpanEnds text ends)
    (hp : NoMarkup (p.drop s.pos)) :
    ∃ q, Before text p q ∧ s.Reaches isAlnum text ends
      [⟨p.length, p.length + (boundary opens).length, opens⟩]
      (Scan.thinkTag { q with pos := p.length + (boundary opens).length } opens) := by
  obtain ⟨s', hreach, -, hat, -, hstep⟩ := h.reaches isAlnum (boundary_mem opens) htext hends hp
  rw [Scan.readTag, Scan.onMarker_boundary] at hstep
  exact ⟨s'.leaveQuote, hat.toBefore, hreach.trans (.turn hstep (.here _))⟩

end Before

/-! ## 4. Without an object -/

section Objectless

variable {isAlnum : Char → Bool} {text : List Char} {ends : Dict Nat Nat} {low : Nat}

/-- What the turns in front of a position keep holds in front of it. -/
theorem Scan.upTo_keeps {P : Scan → Prop} {stop : Nat} (hleave : ∀ s, P s → P s.leaveQuote)
    (hstep : ∀ s s' m, P s → s.step isAlnum text ends = some (s', m) → s'.pos ≤ stop → P s')
    {s : Scan} (h : P s) : P (s.upTo isAlnum text ends stop) := by
  unfold Scan.upTo
  generalize text.length = fuel
  induction fuel generalizing s with
  | zero => exact hleave s h
  | succ fuel ih =>
    unfold Scan.upToFrom
    split
    · exact hleave s h
    · next s' m hs =>
      split
      · next hle => exact ih (hstep s s' m h hs hle)
      · exact hleave s h

/-- The scanner where no object of a call was opened: what is quoted began at `low` or behind, and
    ends where the table says. -/
structure Objectless (ends : Dict Nat Nat) (low : Nat) (s : Scan) : Prop where
  start : low ≤ s.pos
  depth : s.scope.jsonDepth = 0
  jsonQuote : s.jsonQuote = false
  quote : ∀ e, s.quoteEnd = some e → s.quoteState.jsonDepth = 0 ∧
    ∃ i, low ≤ i ∧ i < s.pos ∧ ends.get? i = some e

theorem Objectless.move {s : Scan} (h : Objectless ends low s) {pos : Nat} (hpos : s.pos ≤ pos) :
    Objectless ends low { s with pos := pos } where
  start := h.start.trans hpos
  depth := h.depth
  jsonQuote := h.jsonQuote
  quote := fun e he => by
    obtain ⟨hstate, i, hi, hlt, hget⟩ := h.quote e he
    exact ⟨hstate, i, hi, hlt.trans_le hpos, hget⟩

/-- Another scope outside every object. -/
theorem Objectless.setScope {s : Scan} (h : Objectless ends low s) {scope : Scope}
    (hscope : scope.jsonDepth = 0) : Objectless ends low { s with scope := scope } :=
  ⟨h.start, hscope, h.jsonQuote, h.quote⟩

theorem Objectless.leaveQuote {s : Scan} (h : Objectless ends low s) :
    Objectless ends low s.leaveQuote := by
  unfold Scan.leaveQuote
  split
  · next e he =>
    split
    · exact ⟨h.start, (h.quote e he).1, rfl, nofun⟩
    · exact h
  · exact h

theorem Objectless.openQuote {s : Scan} (h : Objectless ends low s) {start : Nat}
    (hlow : low ≤ start) (hpos : start < s.pos) (marker : List Char) :
    Objectless ends low (s.openQuote ends start marker) :=
  ⟨h.start, h.depth, h.jsonQuote, fun _ he => ⟨h.depth, start, hlow, hpos, he⟩⟩

theorem Objectless.xmlTag {s : Scan} (h : Objectless ends low s) {limit : Nat}
    (hlimit : s.pos ≤ limit) (marker : List Char) :
    Objectless ends low (s.xmlTag text limit marker) := by
  unfold Scan.xmlTag
  split
  · exact h.setScope h.depth
  · split
    · exact h.setScope h.depth
    · split
      · split
        · exact h.move (xmlReasoningValueEnd_le _ _ _ _ _ le_rfl nofun)
        · refine h.move ?_
          cases he : xmlValueEnd text s.pos limit with
          | none => exact hlimit
          | some e => exact xmlValueEnd_le he
      · exact h

/-- A marker opens no object, unless it is a `<tool_call>` that one follows. -/
theorem Objectless.onMarker {s : Scan} (h : Objectless ends low s) {start limit : Nat}
    (hlow : low ≤ start) (hpos : start < s.pos) (hlimit : s.pos ≤ limit) {marker : List Char}
    (hobject : marker = toolOpen → objectStart (region text s.pos limit) = none) :
    Objectless ends low (s.onMarker isAlnum text ends start limit marker).1 := by
  unfold Scan.onMarker
  split
  · split
    · exact h.openQuote hlow hpos _
    · exact h
  · split
    · exact h.openQuote hlow hpos _
    · exact h
  rw [if_neg fun hc => hc.1 h.depth]
  split
  · unfold Scan.proseQuote
    rw [h.jsonQuote, Bool.false_and, if_neg Bool.false_ne_true]
    split
    · exact h.openQuote hlow hpos _
    · exact h
  · split
    · exact ⟨h.start, rfl, rfl, nofun⟩
    · split
      · exact ⟨h.start, rfl, rfl, nofun⟩
      · split
        · next htool =>
          unfold Scan.toolTag
          rw [hobject htool]
          exact ⟨h.start, rfl, h.jsonQuote, h.quote⟩
        · split
          · exact h.setScope rfl
          · rw [if_neg fun hc => hc h.depth]
            split
            · exact h.xmlTag hlimit marker
            · exact h

/-- Whitespace, then a brace. -/
theorem objectStart_eq_some_iff {l : List Char} {n : Nat} :
    objectStart l = some n ↔
      ∃ spaces rest, l = spaces ++ '{' :: rest ∧ spaces.all isSpace = true ∧
        n = spaces.length + 1 := by
  constructor
  · intro h
    unfold objectStart at h
    split at h
    · next rest hrest =>
      refine ⟨l.takeWhile isSpace, rest, ?_, List.all_takeWhile, (Option.some.inj h).symm⟩
      rw [← hrest, List.takeWhile_append_dropWhile]
    · cases h
  · rintro ⟨spaces, rest, rfl, hspaces, rfl⟩
    have hall := List.all_eq_true.mp hspaces
    unfold objectStart
    rw [List.dropWhile_append_of_pos hall, List.takeWhile_append_of_pos hall]
    simp [show isSpace '{' = false by decide]

/-- An object that starts in front of a limit starts there without the limit. -/
theorem objectStart_take {l : List Char} {k n : Nat} (h : objectStart (l.take k) = some n) :
    objectStart l = some n := by
  obtain ⟨spaces, rest, hl, hspaces, hn⟩ := objectStart_eq_some_iff.mp h
  refine objectStart_eq_some_iff.mpr ⟨spaces, rest ++ l.drop k, ?_, hspaces, hn⟩
  rw [← List.cons_append, ← List.append_assoc, ← hl, List.take_append_drop]

/-- No object follows a `<tool_call>` from `low` on, up to `stop`. -/
def NoObject (text : List Char) (low stop : Nat) : Prop :=
  ∀ j n, low ≤ j → toolOpen <+: text.drop j →
    objectStart (text.drop (j + toolOpen.length)) = some n → stop < j + toolOpen.length + n

theorem Objectless.step {stop : Nat} (hno : NoObject text low stop) {s s' : Scan}
    {m : Option Marker} (h : Objectless ends low s)
    (hs : s.step isAlnum text ends = some (s', m)) (hstop : s'.pos ≤ stop) :
    Objectless ends low s' := by
  have hq := h.leaveQuote
  unfold Scan.step at hs
  split at hs
  · cases hs
  simp only at hs
  split at hs
  · split at hs
    · cases hs
    · next e he =>
      cases hs
      refine hq.move ?_
      rw [Scan.leaveQuote_pos]
      exact (Scan.leaveQuote_end he).le
  · next start marker hsearch =>
    obtain ⟨hlow, -, -, -⟩ := searchToken_some hsearch
    obtain ⟨hne, hbegins, hlimit, -⟩ := Scan.searchToken_stop hsearch
    have hlen := List.length_pos_iff.mpr hne
    have hs' : Scan.onMarker isAlnum text ends { s.leaveQuote with pos := start + marker.length }
        start (s.leaveQuote.limit text) marker = (s', m) := Option.some.inj hs
    have hmoved : Objectless ends low { s.leaveQuote with pos := start + marker.length } :=
      hq.move (by omega)
    have hin : Objectless ends low (Scan.onMarker isAlnum text ends
        { s.leaveQuote with pos := start + marker.length } start (s.leaveQuote.limit text)
          marker).1 := by
      refine hmoved.onMarker (hq.start.trans hlow) (Nat.lt_add_of_pos_right hlen) hlimit
        fun htool => ?_
      -- an object behind the tag would be read in this turn
      subst htool
      by_contra hobject
      obtain ⟨n, hn⟩ := Option.ne_none_iff_exists'.mp hobject
      have hread : s'.pos = start + toolOpen.length + n := by
        have hpos := congrArg (fun r : Scan × Option Marker => r.1.pos) hs'
        rw [← show _ = s'.pos from hpos]
        unfold Scan.onMarker
        split
        · next hm => cases hm
        · next hm => cases hm
        rw [if_neg (fun hc => by cases hc.2), if_neg (fun hc => by cases hc.2), if_neg (by decide),
          if_neg (by decide), if_pos rfl]
        unfold Scan.toolTag
        simp only [hn]
        split <;> rfl
      have hfar := hno start n (hq.start.trans hlow)
        (hbegins.trans (by unfold region; exact drop_le_drop (List.take_prefix _ _) _))
        (objectStart_take (k := s.leaveQuote.limit text - (start + toolOpen.length))
          (by rw [← List.drop_take]; exact hn))
      omega
    rwa [hs'] at hin

/-- **Where no `<tool_call>` is followed by an object**, every quoted example is one of the table. -/
theorem Objectless.upTo (isAlnum : Char → Bool) {stop : Nat} (hno : NoObject text low stop)
    {s : Scan} (h : Objectless ends low s) : Objectless ends low (s.upTo isAlnum text ends stop) :=
  Scan.upTo_keeps (fun _ h => h.leaveQuote) (fun _ _ _ h hs hstop => h.step hno hs hstop) h

end Objectless

end RolloutProxy.Reasoning
