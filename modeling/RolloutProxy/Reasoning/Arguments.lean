/-
  File:      RolloutProxy/Reasoning/Arguments.lean
  Subject:   AN XML CALL BEHIND REASONING: a completion `<think>` r `</think>` p and one call with one
             parameter, as the scanner reads it.

  * The value of the parameter is read as an argument up to its close, as long as no quoted example
    is open at `<tool_call>` (`InCall.value_markers`).
  * An example that was opened in `p` and ends inside the call takes the scope of the call back:
    what is behind its end is read as prose (`Reopened`). It reopens nothing where all that `p`
    opens is closed in `p` (`not_reopened_of_closed`), or where the value holds no `<think>`
    (`not_reopened_of_no_opener`).
-/
import RolloutProxy.Reasoning.Front

namespace RolloutProxy.Reasoning

/-! ## 1. The completion -/

def functionTag (name : List Char) : List Char := functionHead ++ name ++ ['>']
def parameterTag (name : List Char) : List Char := parameterHead ++ name ++ ['>']

/-- `</parameter></function></tool_call>` -/
def callTail : List Char := parameterClose ++ functionClose ++ toolClose

/-- A parameter's value between its markers, on lines of its own. -/
def valueLines (value : List Char) : List Char := '\n' :: (value ++ ['\n'])

/-- What follows `<tool_call>`. -/
def callBody (function parameter value : List Char) : List Char :=
  functionTag function ++ parameterTag parameter ++ valueLines value ++ callTail

/-- Reasoning and its markers. -/
def reasoned (r : List Char) : List Char := thinkOpen ++ r ++ thinkClose

/-- A name as a call spells it: trimmed, on one line, without angle brackets. -/
structure IsName (name : List Char) : Prop where
  nonempty : name ≠ []
  trimmed : stripChars name = name
  line : '\n' ∉ name
  noOpen : '<' ∉ name
  noClose : '>' ∉ name

/-- A value that ends no parameter, function or call. -/
def Unclosed (value : List Char) : Prop := ∀ t ∈ xmlClosers, ¬ t <:+: value

instance (value : List Char) : Decidable (Unclosed value) :=
  inferInstanceAs (Decidable (∀ t ∈ xmlClosers, ¬ t <:+: value))

theorem IsName.not_blank {name : List Char} (h : IsName name) : name.all isSpace = false := by
  refine Bool.eq_false_iff.mpr fun hall => h.nonempty ?_
  rw [← h.trimmed]
  unfold stripChars
  rw [dropWhile_all hall]
  rfl

/-! ## 2. The tags of a call -/

/-- Every tag has its `>`. -/
theorem tagAt_closes {l m : List Char} (h : tagAt l = some m) : '>' ∈ m := by
  have hliteral : ∀ t ∈ literalTags, '>' ∈ t := by decide
  have hnamed : ∀ {head : List Char}, namedTag head l = some m → '>' ∈ m := by
    intro head hn
    unfold namedTag at hn
    split at hn
    · simp only at hn
      split at hn
      · split at hn
        · cases hn
        · cases hn
          simp
      · cases hn
    · cases hn
  unfold tagAt at h
  split at h
  · next t ht =>
    cases h
    exact hliteral _ (List.mem_of_find?_eq_some ht)
  · cases hf : namedTag functionHead l with
    | some t => rw [hf] at h; cases h; exact hnamed hf
    | none => rw [hf] at h; exact hnamed h

/-- What is read where no `>` follows starts with no `<`. -/
theorem tokenAt_untagged {l m : List Char} (h : tokenAt l = some m) (hl : '>' ∉ l) :
    m.head? ≠ some '<' := by
  unfold tokenAt at h
  cases ht : tagAt l with
  | some t => exact absurd ((tagAt_spec ht).2.1.subset (tagAt_closes ht)) hl
  | none =>
      rw [ht, Option.none_or] at h
      cases l with
      | nil => cases h
      | cons c l =>
          simp only [delimiterAt] at h
          intro hm
          have hc : c = '<' := by
            have := (delimiterAt_spec (show delimiterAt (c :: l) = some m from h)).2.1
            obtain ⟨m', rfl⟩ : ∃ m', m = '<' :: m' := by
              cases m with
              | nil => cases hm
              | cons d m' => cases hm; exact ⟨m', rfl⟩
            exact (List.cons_prefix_cons.mp this).1.symm
          subst hc
          simp only [show (['{', '}', '[', ']'].contains '<' || isQuote '<') = false from by decide,
            show ('<' == '`') = false from rfl, show ('<' == '~') = false from rfl,
            Bool.false_eq_true, if_false] at h
          cases h

theorem takeWhile_name {name : List Char} (h : IsName name) (rest : List Char) :
    (name ++ '>' :: rest).takeWhile isNameChar = name ∧
      (name ++ '>' :: rest).dropWhile isNameChar = '>' :: rest := by
  have hname : ∀ c ∈ name, isNameChar c = true := by
    intro c hc
    simp only [isNameChar, Bool.and_eq_true, bne_iff_ne, ne_eq]
    exact ⟨⟨fun e => h.noOpen (e ▸ hc), fun e => h.noClose (e ▸ hc)⟩, fun e => h.line (e ▸ hc)⟩
  constructor
  · rw [List.takeWhile_append_of_pos hname]
    simp [isNameChar]
  · rw [List.dropWhile_append_of_pos hname]
    simp [isNameChar]

/-- A tag with a name is read up to its `>`. -/
theorem namedTag_name {head name : List Char} (h : IsName name) (rest : List Char) :
    namedTag head (head ++ name ++ '>' :: rest) = some (head ++ name ++ ['>']) := by
  obtain ⟨htake, hdrop⟩ := takeWhile_name h rest
  unfold namedTag
  rw [if_pos (by simp [List.append_assoc])]
  simp only [List.append_assoc, List.drop_left, htake, hdrop]
  rw [if_neg (by simpa using h.nonempty)]

theorem tokenAt_functionTag {name : List Char} (h : IsName name) (rest : List Char) :
    tokenAt (functionTag name ++ rest) = some (functionTag name) := by
  have hfind : literalTags.find? (·.isPrefixOf (functionTag name ++ rest)) = none := by
    simp [literalTags, functionTag, functionHead, thinkOpen, thinkClose, toolOpen, toolClose,
      functionClose, parameterClose, List.isPrefixOf]
  unfold tokenAt tagAt
  rw [hfind]
  simp only
  rw [show functionTag name ++ rest = functionHead ++ name ++ '>' :: rest by simp [functionTag],
    namedTag_name h]
  rfl

theorem tokenAt_parameterTag {name : List Char} (h : IsName name) (rest : List Char) :
    tokenAt (parameterTag name ++ rest) = some (parameterTag name) := by
  have hfind : literalTags.find? (·.isPrefixOf (parameterTag name ++ rest)) = none := by
    simp [literalTags, parameterTag, parameterHead, thinkOpen, thinkClose, toolOpen, toolClose,
      functionClose, parameterClose, List.isPrefixOf]
  have hfun : namedTag functionHead (parameterTag name ++ rest) = none := by
    simp [namedTag, parameterTag, parameterHead, functionHead, List.isPrefixOf]
  unfold tokenAt tagAt
  rw [hfind]
  simp only
  rw [hfun, show parameterTag name ++ rest = parameterHead ++ name ++ '>' :: rest by
    simp [parameterTag], namedTag_name h]
  rfl

/-- A token at the position is what is found. -/
theorem searchToken_here {text : List Char} {pos limit : Nat} {m : List Char}
    (h : tokenAt (region text pos limit) = some m) : searchToken text pos limit = some (pos, m) := by
  unfold searchToken
  cases hr : region text pos limit with
  | nil => rw [hr] at h; cases h
  | cons c l =>
      rw [hr] at h
      unfold searchFrom
      rw [h]

/-! ## 3. Markers in order -/

/-- Markers behind a position, each behind the one before, in a text of length `len`. -/
def Ordered (len : Nat) : Nat → List Marker → Prop
  | _, [] => True
  | pos, m :: ms => pos ≤ m.start ∧ m.start + 7 ≤ m.stop ∧ m.stop ≤ len ∧ Ordered len m.stop ms

theorem Ordered.mono {len : Nat} : ∀ {ms : List Marker} {pos pos' : Nat}, pos' ≤ pos →
    Ordered len pos ms → Ordered len pos' ms
  | [], _, _, _, _ => trivial
  | _ :: _, _, _, hle, ⟨h₁, h₂⟩ => ⟨hle.trans h₁, h₂⟩

theorem Ordered.ahead {len : Nat} : ∀ {ms : List Marker} {pos : Nat}, Ordered len pos ms →
    ∀ m ∈ ms, pos ≤ m.start
  | [], _, _, m, hm => by cases hm
  | m :: ms, pos, ⟨h₁, h₂, _, h₄⟩, m', hm' => by
      rcases List.mem_cons.mp hm' with rfl | hm'
      · exact h₁
      · have := h₄.ahead m' hm'
        omega

section Scanner

variable {isAlnum : Char → Bool} {text : List Char} {ends : Dict Nat Nat}

namespace Scan

/-- A marker that is yielded lies between the positions of its turn. -/
theorem step_marker {s s' : Scan} {m : Marker} (h : s.step isAlnum text ends = some (s', some m)) :
    s.pos ≤ m.start ∧ m.start + 7 ≤ m.stop ∧ m.stop ≤ text.length ∧ m.stop = s'.pos := by
  unfold step at h
  split at h
  · cases h
  · simp only at h
    split at h
    · split at h <;> cases h
    · next start marker hs =>
      have hlow := (searchToken_some hs).1
      have hstop := (searchToken_stop hs).2.2.2
      rw [leaveQuote_pos] at hlow
      simp only [Option.some.injEq] at h
      rcases onMarker_yields h with ⟨rfl, rfl, rfl⟩ | ⟨rfl, rfl, rfl⟩
      · exact ⟨hlow, le_rfl, hstop, rfl⟩
      · exact ⟨hlow, Nat.le_succ _, hstop, rfl⟩

theorem markersFrom_ordered : ∀ (fuel : Nat) (s : Scan),
    Ordered text.length s.pos (markersFrom isAlnum text ends fuel s)
  | 0, _ => trivial
  | fuel + 1, s => by
      unfold markersFrom
      split
      · trivial
      · next s' o hs =>
        have hrest := markersFrom_ordered fuel s'
        cases o with
        | none => exact hrest.mono (step_pos hs).le
        | some m =>
            obtain ⟨h₁, h₂, h₃, h₄⟩ := step_marker hs
            exact ⟨h₁, h₂, h₃, h₄ ▸ hrest⟩

theorem markers_ordered (s : Scan) : Ordered text.length s.pos (s.markers isAlnum text ends) :=
  markersFrom_ordered _ s

/-- Nothing is yielded where no think tag is ahead. -/
theorem markers_nil {s : Scan} {stop : Nat} (hstop : stop ≤ s.pos)
    (hopen : ¬ thinkOpen <:+: text.drop stop) (hclose : ¬ thinkClose <:+: text.drop stop) :
    s.markers isAlnum text ends = [] := by
  refine List.eq_nil_iff_forall_not_mem.mpr fun m hm => ?_
  have hahead := (markers_ordered s).ahead m hm
  have hin : ∀ {t : List Char}, t <+: text.drop m.start → t <:+: text.drop stop := fun ht => by
    rw [show m.start = stop + (m.start - stop) by omega, ← List.drop_drop] at ht
    exact ht.isInfix.trans (List.drop_suffix _ _).isInfix
  rcases (markersFrom_stand _ s m hm).2 with h | h
  · exact hopen (hin h.2)
  · exact hclose (hin h.2)

/-- A turn depends on what is left of an ended example only. -/
theorem step_congr {s s' : Scan} (hpos : s.pos = s'.pos) (h : s.leaveQuote = s'.leaveQuote) :
    s.step isAlnum text ends = s'.step isAlnum text ends := by
  unfold step
  rw [hpos, h]

theorem markers_congr {s s' : Scan} (hpos : s.pos = s'.pos) (h : s.leaveQuote = s'.leaveQuote) :
    s.markers isAlnum text ends = s'.markers isAlnum text ends := by
  have hstep : s.step isAlnum text ends = s'.step isAlnum text ends := step_congr hpos h
  cases hs : s.step isAlnum text ends with
  | none => rw [markers_end hs, markers_end (hstep.symm.trans hs)]
  | some p => rw [markers_step hs, markers_step (hstep.symm.trans hs)]

/-- An example that has not ended stays. -/
theorem leaveQuote_open {s : Scan} (h : ∀ e, s.quoteEnd = some e → s.pos < e) :
    s.leaveQuote = s := by
  unfold leaveQuote
  split
  · next e he => rw [if_neg (Nat.not_le.mpr (h e he))]
  · rfl

/-! ## 4. Inside a quoted example -/

/-- In a quoted example without JSON, a marker that is no tag changes nothing. -/
theorem onMarker_quoted {s : Scan} {e start limit : Nat} {marker : List Char}
    (he : s.quoteEnd = some e) (hjson : s.jsonQuote = false) (hdepth : s.scope.jsonDepth = 0)
    (hmarker : marker.head? ≠ some '<') :
    s.onMarker isAlnum text ends start limit marker = (s, none) := by
  have hne : s.quoteEnd ≠ none := by rw [he]; exact Option.some_ne_none e
  have htag : ∀ {t : List Char}, t.head? = some '<' → marker ≠ t := fun ht e => hmarker (e ▸ ht)
  have hhead : ∀ {head : List Char}, head.head? = some '<' → head.isPrefixOf marker = false := by
    intro head hh
    refine Bool.eq_false_iff.mpr fun hp => hmarker ?_
    obtain ⟨rest, rfl⟩ := List.isPrefixOf_iff_prefix.mp hp
    cases head with
    | nil => cases hh
    | cons c head => exact hh
  unfold onMarker
  split
  · rw [if_neg hne]
  · rw [if_neg hne]
  · rw [if_neg (fun hc => hc.1 hdepth)]
    split
    · unfold proseQuote
      rw [hjson, Bool.false_and, if_neg Bool.false_ne_true, if_neg (fun hc => hne hc.1)]
    · rw [if_neg (htag rfl), if_neg (htag rfl), if_neg (htag rfl), if_neg (htag rfl),
        if_neg (fun hc => hc hdepth)]
      split
      · unfold xmlTag
        rw [hhead rfl, if_neg Bool.false_ne_true, if_neg (htag rfl), hhead rfl,
          if_neg (fun hc => Bool.false_ne_true hc.2.1)]
      · rfl

/-- **A quoted example without tags is passed over.** -/
theorem reaches_quoteEnd {s : Scan} {e : Nat} (he : s.quoteEnd = some e)
    (hjson : s.jsonQuote = false) (hdepth : s.scope.jsonDepth = 0) (hpos : s.pos ≤ e)
    (hlen : e ≤ text.length) (htags : '>' ∉ region text s.pos e) :
    s.Reaches isAlnum text ends [] { s with pos := e } := by
  rcases Nat.eq_or_lt_of_le hpos with heq | hlt
  · rw [← heq]
    exact .here s
  · have hopen : s.leaveQuote = s := leaveQuote_open fun e' he' => by
      rw [he] at he'
      cases he'
      exact hlt
    have hlimit : s.limit text = e := by rw [limit, he]; rfl
    cases hsearch : searchToken text s.pos e with
    | none =>
        have hstep : s.step isAlnum text ends = some ({ s with pos := e }, none) := by
          unfold step
          rw [if_neg (by omega)]
          simp only [hopen, hlimit, hsearch, he]
        exact .turn hstep (.here _)
    | some found =>
        obtain ⟨start, marker⟩ := found
        obtain ⟨hlow, -, htok, -⟩ := searchToken_some hsearch
        obtain ⟨hne, -, hstop, -⟩ := searchToken_stop hsearch
        have hmpos : 0 < marker.length := List.length_pos_iff.mpr hne
        have hdrop : region text start e = (region text s.pos e).drop (start - s.pos) := by
          rw [region_drop, Nat.add_sub_cancel' hlow]
        have hno : '>' ∉ region text start e := fun hm => htags (List.mem_of_mem_drop (hdrop ▸ hm))
        have hstep : s.step isAlnum text ends = some ({ s with pos := start + marker.length }, none) := by
          unfold step
          rw [if_neg (by omega)]
          simp only [hopen, hlimit, hsearch]
          rw [onMarker_quoted (s := { s with pos := start + marker.length }) he hjson hdepth
            (tokenAt_untagged htok hno)]
        refine .turn hstep (reaches_quoteEnd (s := { s with pos := start + marker.length }) he hjson
          hdepth hstop hlen fun hm => ?_)
        refine htags (List.mem_of_mem_drop (i := start + marker.length - s.pos) ?_)
        rw [region_drop, Nat.add_sub_cancel' (by omega)]
        exact hm
termination_by e - s.pos

end Scan

end Scanner

/-! ## 5. The call -/

theorem xmlClosers_chars : ∀ t ∈ xmlClosers, ∃ t', t = '<' :: '/' :: t' ∧ '\n' ∉ t ∧ '<' ∉ t.tail := by
  simp only [xmlClosers, List.forall_mem_cons]
  exact ⟨⟨_, rfl, by decide⟩, ⟨_, rfl, by decide⟩, ⟨_, rfl, by decide⟩, by simp⟩

/-- A tag with a name is none whose second character differs. -/
theorem Skips.named {t head name : List Char} {c : Char} (ht : t.head? = some '<')
    (hc : t[1]? = some c) (hhead : head ∈ [functionHead, parameterHead])
    (hsecond : head[1]? ≠ some c) (hname : IsName name) : Skips t (head ++ name ++ ['>']) := by
  have hheads : ∀ head ∈ [functionHead, parameterHead], '<' ∉ head.tail ∧ head ≠ [] ∧
      2 ≤ head.length := by decide
  obtain ⟨htail, hne, hlen⟩ := hheads head hhead
  refine .tag ht ?_ fun rest hp => ?_
  · rw [List.append_assoc, List.tail_append_of_ne_nil hne, List.mem_append, List.mem_append]
    rintro (hm | hm | hm)
    · exact htail hm
    · exact hname.noOpen hm
    · simp at hm
  · obtain ⟨u, hu⟩ := hp
    have hget : (head ++ name ++ ['>'] ++ rest)[1]? = some c := by
      rw [← hu, List.getElem?_append_left (List.getElem?_eq_some_iff.mp hc).1, hc]
    rw [List.append_assoc, List.append_assoc, List.getElem?_append_left (by omega)] at hget
    exact hsecond hget

/-- A closer starts with `</`. -/
theorem xmlClosers_head {t : List Char} (ht : t ∈ xmlClosers) :
    t.head? = some '<' ∧ t[1]? = some '/' := by
  obtain ⟨t', rfl, -, -⟩ := xmlClosers_chars t ht
  exact ⟨rfl, rfl⟩

/-- **A value on lines of its own** holds the tags that it spells. -/
theorem Skips.value {t v : List Char} (ht : t.head? = some '<') (hnl : '\n' ∉ t)
    (hv : ¬ t <:+: v) : Skips t (valueLines v) := by
  intro rest k hk hp
  have hcut : (valueLines v ++ rest).drop k = ('\n' :: v).drop k ++ '\n' :: rest ∨
      (valueLines v ++ rest).drop k = '\n' :: rest := by
    have hsplit : valueLines v ++ rest = ('\n' :: v) ++ '\n' :: rest := by simp [valueLines]
    rw [hsplit]
    rcases Nat.lt_or_ge k ('\n' :: v).length with hlt | hge
    · exact .inl (List.drop_append_of_le_length hlt.le)
    · have hk' : k = ('\n' :: v).length := by
        simp only [valueLines, List.length_cons, List.length_append, List.length_nil] at hk hge ⊢
        omega
      exact .inr (by rw [hk', List.drop_left])
  have hstart : ∀ rest', ¬ t <+: '\n' :: rest' := by
    rintro rest' ⟨u, hu⟩
    cases t with
    | nil => cases ht
    | cons c t' =>
      cases ht
      cases hu
  rcases hcut with hcut | hcut
  · rw [hcut] at hp
    have hne : ('\n' :: v).drop k ≠ [] := by
      intro he
      rw [he] at hp
      exact hstart rest hp
    have hin := isPrefix_of_append_cons (fun hm => hnl (List.mem_of_mem_tail hm)) hne hp
    cases k with
    | zero => exact hstart _ hin
    | succ k =>
        rw [List.drop_succ_cons] at hin
        exact hv (hin.isInfix.trans (List.drop_suffix _ _).isInfix)
  · rw [hcut] at hp
    exact hstart rest hp

/-- A value that ends no call holds no closer. -/
theorem Unclosed.skips {v t : List Char} (hv : Unclosed v) (ht : t ∈ xmlClosers) :
    Skips t (valueLines v) := by
  obtain ⟨t', rfl, hnl, -⟩ := xmlClosers_chars t ht
  exact .value rfl hnl (hv _ ht)

section Call

variable {isAlnum : Char → Bool} {x f k v : List Char} {ends : Dict Nat Nat}

namespace Scan

/-- The scanner in a call, in front of `</tool_call>`. -/
structure InCall (s : Scan) : Prop where
  inTool : s.scope.inTool = true
  jsonDepth : s.scope.jsonDepth = 0
  answering : s.scope.toolInReasoning = false
  jsonQuote : s.jsonQuote = false

/-- A turn that finds a tag of a call at its position. -/
theorem InCall.step_tag {text : List Char} {s : Scan} (h : s.InCall) {m : List Char}
    (htok : tokenAt (region text s.pos (s.limit text)) = some m) (hpos : s.pos < text.length)
    (hopen : ∀ e, s.quoteEnd = some e → s.pos < e) (hm : m ∉ literalTags)
    (hhead : m.head? = some '<') :
    s.step isAlnum text ends =
      some (xmlTag text { s with pos := s.pos + m.length } (s.limit text) m, none) := by
  have hnot : ∀ {t : List Char}, t ∈ literalTags → m ≠ t := fun ht e => hm (e ▸ ht)
  unfold step
  rw [if_neg (by omega)]
  simp only [leaveQuote_open hopen, searchToken_here htok]
  unfold onMarker
  split
  · cases hhead
  · cases hhead
  · rw [if_neg (fun hc => hc.1 h.jsonDepth), if_neg, if_neg (hnot (by decide)),
      if_neg (hnot (by decide)), if_neg (hnot (by decide)), if_neg (hnot (by decide)),
      if_neg (fun hc => hc h.jsonDepth), if_pos h.inTool]
    rintro ⟨-, hq⟩
    unfold opensProse at hq
    split at hq
    · cases hhead
      revert hq
      decide
    · cases hq

/-- What is read behind the example that is open, if one is. -/
def afterExample (isAlnum : Char → Bool) (text : List Char) (ends : Dict Nat Nat) (s : Scan) :
    List Marker :=
  match s.quoteEnd with
  | none => []
  | some e => ({ s with pos := e } : Scan).markers isAlnum text ends

theorem afterExample_none {text : List Char} {s : Scan} (h : s.quoteEnd = none) :
    s.afterExample isAlnum text ends = [] := by
  unfold afterExample
  rw [h]

theorem afterExample_some {text : List Char} {s : Scan} {e : Nat} (h : s.quoteEnd = some e) :
    s.afterExample isAlnum text ends =
      ({ s with pos := e } : Scan).markers isAlnum text ends := by
  unfold afterExample
  split
  · next hn => rw [h] at hn; cases hn
  · next e' he => rw [h] at he; cases he; rfl

/-- An example gives back the scope it began in, whatever the scope is where it ends. -/
theorem afterExample_scope {text : List Char} (s : Scan) (pos : Nat) (scope : Scope) :
    ({ s with pos := pos, scope := scope } : Scan).afterExample isAlnum text ends =
      s.afterExample isAlnum text ends := by
  rcases Option.eq_none_or_eq_some s.quoteEnd with he | ⟨e, he⟩
  · rw [afterExample_none he]
    exact afterExample_none he
  · have hs : ({ s with pos := pos, scope := scope } : Scan).quoteEnd = some e := he
    rw [afterExample_some he, afterExample_some hs]
    refine markers_congr rfl ?_
    unfold leaveQuote
    simp only [he, le_rfl, if_true]

end Scan

/-- A call behind `x`. -/
def callText (x f k v : List Char) : List Char := x ++ toolOpen ++ callBody f k v

theorem callText_function (x f k v : List Char) : callText x f k v =
    (x ++ toolOpen) ++ functionTag f ++ (parameterTag k ++ valueLines v ++ callTail) := by
  simp only [callText, callBody, List.append_assoc]

theorem callText_parameter (x f k v : List Char) : callText x f k v =
    (x ++ toolOpen ++ functionTag f) ++ parameterTag k ++ (valueLines v ++ callTail) := by
  simp only [callText, callBody, List.append_assoc]

theorem callText_value (x f k v : List Char) : callText x f k v =
    (x ++ toolOpen ++ functionTag f ++ parameterTag k) ++ valueLines v ++ callTail := by
  simp only [callText, callBody, List.append_assoc]

/-- No think tag stands behind the value. -/
theorem Scan.markers_behind {s : Scan}
    (h : (x ++ toolOpen ++ functionTag f ++ parameterTag k ++ valueLines v).length ≤ s.pos) :
    s.markers isAlnum (callText x f k v) ends = [] := by
  have hdrop : (callText x f k v).drop
      (x ++ toolOpen ++ functionTag f ++ parameterTag k ++ valueLines v).length = callTail := by
    rw [callText_value, List.drop_left]
  refine Scan.markers_nil h ?_ ?_
  · rw [hdrop]
    decide
  · rw [hdrop]
    decide

/-- A limit in front of the end of a tag leaves no `>` of it. -/
theorem region_cut {p head name r : List Char} (hhead : '>' ∉ head) (hname : IsName name) {e : Nat}
    (he : e < p.length + (head ++ name ++ ['>']).length) :
    '>' ∉ region (p ++ (head ++ name ++ ['>']) ++ r) p.length e := by
  have hcut : region (p ++ (head ++ name ++ ['>']) ++ r) p.length e <+: head ++ name := by
    have hassoc : p ++ (head ++ name ++ ['>']) ++ r = p ++ (head ++ name) ++ ('>' :: r) := by
      simp only [List.append_assoc, List.cons_append, List.nil_append]
    have hle : e ≤ (p ++ (head ++ name)).length := by
      simp only [List.length_append, List.length_singleton] at he ⊢
      omega
    unfold region
    rw [hassoc, List.take_append_of_le_length hle, List.drop_take]
    refine (List.take_prefix _ _).trans ?_
    rw [List.drop_left]
  intro hm
  rcases List.mem_append.mp (hcut.subset hm) with hm | hm
  · exact hhead hm
  · exact hname.noClose hm

namespace Scan

theorem xmlTag_function {text : List Char} {s : Scan} {limit : Nat} (hf : IsName f) :
    xmlTag text s limit (functionTag f) = { s with scope := { s.scope with inFunction := true } } := by
  have hnamed : named functionHead (functionTag f) = true := by
    unfold named functionTag
    rw [List.append_assoc, List.drop_left, List.dropLast_concat, hf.not_blank]
    rfl
  unfold xmlTag
  rw [if_pos (by unfold functionTag; rw [List.append_assoc]; simp), hnamed]

/-- An argument of a call that answers ends at its close, or at the limit. -/
theorem xmlTag_parameter {text : List Char} {s : Scan} {limit : Nat} (hk : IsName k)
    (hin : s.scope.inFunction = true) (hanswer : s.scope.toolInReasoning = false) {pos : Nat} :
    xmlTag text { s with pos := pos } limit (parameterTag k) =
      { s with pos := (xmlValueEnd text pos limit).getD limit } := by
  have hnamed : named parameterHead (parameterTag k) = true := by
    unfold named parameterTag
    rw [List.append_assoc, List.drop_left, List.dropLast_concat, hk.not_blank]
    rfl
  have hhead : parameterHead.isPrefixOf (parameterTag k) = true := by
    unfold parameterTag
    rw [List.append_assoc]
    simp
  unfold xmlTag
  rw [if_neg (by simp [functionHead, parameterTag, parameterHead, List.isPrefixOf]),
    if_neg (by simp [functionClose, parameterTag, parameterHead]), if_pos ⟨hin, hhead, hnamed⟩,
    if_neg (fun hc => by rw [hanswer] at hc; cases hc.1)]

theorem functionTag_not_literal (f : List Char) : functionTag f ∉ literalTags := by
  simp [literalTags, functionTag, functionHead, thinkOpen, thinkClose, toolOpen, toolClose,
    functionClose, parameterClose]

theorem parameterTag_not_literal (k : List Char) : parameterTag k ∉ literalTags := by
  simp [literalTags, parameterTag, parameterHead, thinkOpen, thinkClose, toolOpen, toolClose,
    functionClose, parameterClose]

/-- The parameter's value, and what is behind it. -/
theorem InCall.value_markers {s : Scan} (hk : IsName k) (hv : Unclosed v) (h : s.InCall)
    (hin : s.scope.inFunction = true)
    (hpos : s.pos = (x ++ toolOpen ++ functionTag f).length)
    (hquote : ∀ e, s.quoteEnd = some e →
      (x ++ toolOpen ++ functionTag f).length + (parameterTag k).length ≤ e) :
    s.markers isAlnum (callText x f k v) ends = s.afterExample isAlnum (callText x f k v) ends := by
  have hktag : 0 < (parameterTag k).length := by simp [parameterTag, parameterHead]
  have hlen : (callText x f k v).length = (x ++ toolOpen ++ functionTag f).length +
      (parameterTag k).length + ((valueLines v).length + callTail.length) := by
    rw [callText_parameter]
    simp only [List.length_append]
  have hlimit : s.pos + (parameterTag k).length ≤ s.limit (callText x f k v) := by
    unfold limit
    cases he : s.quoteEnd with
    | none => simp only [Option.getD_none]; omega
    | some e => simp only [Option.getD_some]; have := hquote e he; omega
  have htok : tokenAt (region (callText x f k v) s.pos (s.limit (callText x f k v))) =
      some (parameterTag k) := by
    rw [callText_parameter, hpos] at hlimit ⊢
    rw [region_tag le_rfl hlimit, List.drop_length, List.nil_append]
    exact tokenAt_parameterTag hk _
  have hstep : s.step isAlnum (callText x f k v) ends = some _ :=
    h.step_tag htok (by omega) (fun e he => by have := hquote e he; omega)
      (parameterTag_not_literal k) rfl
  rw [xmlTag_parameter hk hin h.answering] at hstep
  rw [markers_step hstep, Option.toList_none, List.nil_append]
  -- the value holds no closing tag, so its end lies behind it
  have hvalue : ∀ z, xmlValueEnd (callText x f k v) (s.pos + (parameterTag k).length)
      (s.limit (callText x f k v)) = some z →
        (x ++ toolOpen ++ functionTag f ++ parameterTag k ++ valueLines v).length ≤ z ∧
          z ≤ s.limit (callText x f k v) := by
    intro z hz
    obtain ⟨t, ht, hle, hlt, hp⟩ := xmlValueEnd_some hz
    have hlow : (x ++ toolOpen ++ functionTag f ++ parameterTag k).length ≤ z := by
      rw [List.length_append, ← hpos]
      exact hle
    refine ⟨?_, hlt.le⟩
    by_contra hin
    rw [callText_value, List.append_assoc, show z = (x ++ toolOpen ++ functionTag f ++
      parameterTag k).length + (z - (x ++ toolOpen ++ functionTag f ++ parameterTag k).length) by omega,
      ← List.drop_drop, List.drop_left] at hp
    have hsum : (x ++ toolOpen ++ functionTag f ++ parameterTag k ++ valueLines v).length =
        (x ++ toolOpen ++ functionTag f ++ parameterTag k).length + (valueLines v).length :=
      List.length_append
    exact hv.skips ht _ _ (by omega) hp
  -- a value that an example hides ends with the example
  cases hz : xmlValueEnd (callText x f k v) (s.pos + (parameterTag k).length)
      (s.limit (callText x f k v)) with
  | some z =>
      obtain ⟨hlow, hle⟩ := hvalue z hz
      rw [Option.getD_some, markers_behind (s := { s with pos := z }) hlow]
      cases he : s.quoteEnd with
      | none => exact (afterExample_none he).symm
      | some e =>
          rw [limit, he, Option.getD_some] at hle
          rw [afterExample_some he]
          exact (markers_behind (hlow.trans hle)).symm
  | none =>
      rw [Option.getD_none]
      rcases Option.eq_none_or_eq_some s.quoteEnd with he | ⟨e, he⟩
      · rw [afterExample_none he]
        refine markers_behind ?_
        rw [limit, he, Option.getD_none, callText_value]
        simp only [List.length_append]
        omega
      · have hlim : s.limit (callText x f k v) = e := by rw [limit, he]; rfl
        rw [hlim, afterExample_some he]

/-- A parameter in a quoted example, or in the open. -/
theorem InCall.parameter_markers {s : Scan} (hk : IsName k) (hv : Unclosed v) (h : s.InCall)
    (hin : s.scope.inFunction = true)
    (hpos : s.pos = (x ++ toolOpen ++ functionTag f).length)
    (hquote : ∀ e, s.quoteEnd = some e → s.pos ≤ e) :
    s.markers isAlnum (callText x f k v) ends = s.afterExample isAlnum (callText x f k v) ends := by
  by_cases hcut : ∃ e, s.quoteEnd = some e ∧ e < s.pos + (parameterTag k).length
  · obtain ⟨e, he, hlt⟩ := hcut
    have hlen : s.pos + (parameterTag k).length ≤ (callText x f k v).length := by
      rw [callText_parameter, hpos]
      simp only [List.length_append]
      omega
    have htags : '>' ∉ region (callText x f k v) s.pos e := by
      rw [callText_parameter, hpos]
      exact region_cut (by decide) hk (hpos ▸ hlt)
    have hreach : s.Reaches isAlnum (callText x f k v) ends [] { s with pos := e } :=
      reaches_quoteEnd he h.jsonQuote h.jsonDepth (hquote e he) (by omega) htags
    rw [hreach.markers, afterExample_some he]
    rfl
  · refine InCall.value_markers hk hv h hin hpos fun e he => ?_
    rw [← hpos]
    by_contra hlt
    exact hcut ⟨e, he, by omega⟩

/-- **A call in front of its function**: its arguments yield nothing, and an example that is still
    open gives its scope back where it ends. -/
theorem InCall.function_markers {s : Scan} (hf : IsName f) (hk : IsName k) (hv : Unclosed v)
    (h : s.InCall) (hpos : s.pos = (x ++ toolOpen).length)
    (hquote : ∀ e, s.quoteEnd = some e → s.pos ≤ e) :
    s.markers isAlnum (callText x f k v) ends = s.afterExample isAlnum (callText x f k v) ends := by
  have hftag : 0 < (functionTag f).length := by simp [functionTag, functionHead]
  have hlen : s.pos + (functionTag f).length ≤ (callText x f k v).length := by
    rw [callText_function, hpos]
    simp only [List.length_append]
    omega
  by_cases hcut : ∃ e, s.quoteEnd = some e ∧ e < s.pos + (functionTag f).length
  · obtain ⟨e, he, hlt⟩ := hcut
    have htags : '>' ∉ region (callText x f k v) s.pos e := by
      rw [callText_function, hpos]
      exact region_cut (by decide) hf (hpos ▸ hlt)
    have hreach : s.Reaches isAlnum (callText x f k v) ends [] { s with pos := e } :=
      reaches_quoteEnd he h.jsonQuote h.jsonDepth (hquote e he) (by omega) htags
    rw [hreach.markers, afterExample_some he]
    rfl
  · have hbehind : ∀ e, s.quoteEnd = some e → s.pos + (functionTag f).length ≤ e := fun e he => by
      by_contra hlt
      exact hcut ⟨e, he, by omega⟩
    have hlimit : s.pos + (functionTag f).length ≤ s.limit (callText x f k v) := by
      unfold limit
      cases he : s.quoteEnd with
      | none => exact hlen
      | some e => exact hbehind e he
    have htok : tokenAt (region (callText x f k v) s.pos (s.limit (callText x f k v))) =
        some (functionTag f) := by
      rw [callText_function, hpos] at hlimit ⊢
      rw [region_tag le_rfl hlimit, List.drop_length, List.nil_append]
      exact tokenAt_functionTag hf _
    have hstep : s.step isAlnum (callText x f k v) ends = some _ :=
      h.step_tag htok (by omega) (fun e he => by have := hbehind e he; omega)
        (functionTag_not_literal f) rfl
    rw [xmlTag_function hf] at hstep
    rw [markers_step hstep, Option.toList_none, List.nil_append]
    have hcall : InCall { s with
        pos := s.pos + (functionTag f).length
        scope := { s.scope with inFunction := true } } :=
      ⟨h.inTool, h.jsonDepth, h.answering, h.jsonQuote⟩
    rw [hcall.parameter_markers hk hv rfl (by rw [List.length_append, ← hpos]) hbehind]
    exact afterExample_scope s _ _

end Scan

/-- Behind reasoning, `<tool_call>` opens a call that answers. -/
theorem AtTag.readTool {s : Scan} (h : AtTag (callText x f k v) x toolOpen s)
    (hanswer : s.inReasoning = some false) :
    s.readTag isAlnum (callText x f k v) ends x toolOpen =
      ({ s with pos := (x ++ toolOpen).length, scope := ⟨true, false, 0, 0, false⟩ }, none) := by
  have hdepth : s.scope.jsonDepth = 0 := by rw [h.scope]; rfl
  have hobject : objectStart (region (callText x f k v) (x ++ toolOpen).length
      (s.limit (callText x f k v))) = none := by
    unfold region
    rw [callText, List.drop_take, List.drop_left]
    cases s.limit (x ++ toolOpen ++ callBody f k v) - (x ++ toolOpen).length with
    | zero => rfl
    | succ n => rfl
  have htag : Scan.toolTag (callText x f k v) { s with pos := (x ++ toolOpen).length } x.length
      (s.limit (callText x f k v)) =
        { s with pos := (x ++ toolOpen).length, scope := ⟨true, false, 0, 0, false⟩ } := by
    unfold Scan.toolTag
    rw [if_neg (fun hc => by rw [show s.inReasoning = none from hc.1] at hanswer; cases hanswer)]
    simp only [hobject, hanswer]
    rfl
  unfold Scan.readTag
  rw [← List.length_append]
  unfold Scan.onMarker
  split
  · next hm => cases hm
  · next hm => cases hm
  · rw [if_neg (fun hc => hc.1 hdepth), if_neg (fun hc => by cases hc.2), if_neg (by decide),
      if_neg (by decide), if_pos rfl, htag]

end Call

/-! ## 6. The whole completion -/

theorem reasoned_length (r : List Char) : (reasoned r).length = 15 + r.length := by
  simp only [reasoned, List.length_append]
  show 7 + r.length + 8 = _
  omega

/-- What is read as prose behind a quoted example that is still open at the call of a text. -/
def exampleMarkers (isAlnum : Char → Bool) (x f k v : List Char) : List Marker :=
  let ends := quotedSpanEnds isAlnum (callText x f k v)
  (Scan.initial.upTo isAlnum (callText x f k v) ends x.length).afterExample isAlnum
    (callText x f k v) ends

/-- **The scanner comes to the call**: behind the markers of the reasoning (`q`) it reads the prose,
    and there (`s`) no quoted example ends inside `<tool_call>`. -/
theorem reaches_call (isAlnum : Char → Bool) {r p f k v : List Char} (hr : '<' ∉ r) (hp : '<' ∉ p) :
    let text := callText (reasoned r ++ p) f k v
    let ends := quotedSpanEnds isAlnum text
    ∃ q s, Scan.initial.Reaches isAlnum text ends
        [⟨0, 7, true⟩, ⟨7 + r.length, 15 + r.length, false⟩] q ∧
      Objectless ends (reasoned r).length q ∧ q.Reaches isAlnum text ends [] s ∧
      s.pos ≤ (reasoned r ++ p).length ∧ AtTag text (reasoned r ++ p) toolOpen s.leaveQuote ∧
      s.step isAlnum text ends = some ({ s.leaveQuote with
        pos := (reasoned r ++ p ++ toolOpen).length, scope := ⟨true, false, 0, 0, false⟩ }, none) := by
  intro text ends
  have hends : SpanEnds text ends := quotedSpanEnds_spec isAlnum text
  have hx := reasoned_length r
  have hxp : (reasoned r ++ p).length = 15 + r.length + p.length := by
    rw [List.length_append, hx]
  -- the opener
  have hopen : text = [] ++ boundary true ++ (r ++ thinkClose ++ p ++ toolOpen ++ callBody f k v) := by
    simp only [text, callText, reasoned, boundary, if_true, List.append_assoc, List.nil_append]
  obtain ⟨q₁, hq₁, hreach₁⟩ := Before.yields isAlnum true hopen (Before.initial _ []) hends
    (NoMarkup.of_notMem (by simp))
  -- the closer
  have hclose : text = (thinkOpen ++ r) ++ boundary false ++ (p ++ toolOpen ++ callBody f k v) := by
    simp only [text, callText, reasoned, boundary, Bool.false_eq_true, if_false, List.append_assoc]
  have hlen₁ : (thinkOpen ++ r).length = 7 + r.length := List.length_append
  have hb₁ : Before text (thinkOpen ++ r) (Scan.thinkTag { q₁ with pos := 0 + 7 } true) :=
    hq₁.behind true (by omega)
  obtain ⟨q₂, hq₂, hreach₂⟩ := Before.yields isAlnum false hclose hb₁ hends
    (NoMarkup.of_notMem hr)
  have hstop : 7 + r.length + (boundary false).length = 15 + r.length := by
    show 7 + r.length + 8 = _
    omega
  rw [hlen₁, hstop] at hreach₂
  -- the call
  have hb₂ : Before text (reasoned r ++ p)
      (Scan.thinkTag { q₂ with pos := 15 + r.length } false) := hq₂.behind false (by omega)
  have hprose : '<' ∉ (reasoned r ++ p).drop (15 + r.length) := by
    rw [← hx, List.drop_left]
    exact hp
  have htool : text = (reasoned r ++ p) ++ toolOpen ++ callBody f k v := rfl
  obtain ⟨s, hreach₃, hpos, hat, hin, hstep⟩ := hb₂.reaches isAlnum (t := toolOpen) (by decide)
    htool hends (NoMarkup.of_notMem hprose)
  rw [hat.readTool hin] at hstep
  exact ⟨_, s, hreach₁.trans hreach₂, ⟨hx.le, hb₂.scope ▸ rfl, rfl, nofun⟩, hreach₃, hpos, hat, hstep⟩

/-- **The markers of the completion**: those of its reasoning, and what is read behind an example
    that is open at `<tool_call>`. -/
theorem completion_markers (isAlnum : Char → Bool) {r p f k v : List Char} (hr : '<' ∉ r)
    (hp : '<' ∉ p) (hf : IsName f) (hk : IsName k) (hv : Unclosed v) :
    reasoningMarkers isAlnum (callText (reasoned r ++ p) f k v) = ⟨0, 7, true⟩ ::
      ⟨7 + r.length, 15 + r.length, false⟩ :: exampleMarkers isAlnum (reasoned r ++ p) f k v ∧
    Ordered (callText (reasoned r ++ p) f k v).length (reasoned r ++ p).length
      (exampleMarkers isAlnum (reasoned r ++ p) f k v) := by
  obtain ⟨q, s, hreach, -, hprose, hpos, hat, hstep⟩ :=
    reaches_call isAlnum (f := f) (k := k) (v := v) hr hp
  have hbehind : (reasoned r ++ p).length < (reasoned r ++ p ++ toolOpen).length := by
    have hsum : (reasoned r ++ p ++ toolOpen).length = (reasoned r ++ p).length + 11 :=
      List.length_append
    omega
  unfold reasoningMarkers exampleMarkers
  simp only
  rw [(hreach.trans hprose).upTo hpos, Scan.upTo_last hstep hbehind, (hreach.trans hprose).markers,
    Scan.markers_step hstep]
  have hcall : Scan.InCall { s.leaveQuote with
      pos := (reasoned r ++ p ++ toolOpen).length, scope := ⟨true, false, 0, 0, false⟩ } :=
    ⟨rfl, rfl, rfl, hat.jsonQuote⟩
  rw [Option.toList_none, List.nil_append, hcall.function_markers hf hk hv rfl
    (fun e he => by rw [List.length_append]; exact hat.ahead e he), Scan.afterExample_scope]
  refine ⟨rfl, ?_⟩
  rcases Option.eq_none_or_eq_some s.leaveQuote.quoteEnd with he | ⟨e, he⟩
  · rw [Scan.afterExample_none he]
    trivial
  · rw [Scan.afterExample_some he]
    have hahead := hat.ahead e he
    exact (Scan.markers_ordered { s.leaveQuote with pos := e }).mono (by simp only; omega)

/-- An example that is open at the call was opened in the prose, and is paired with a closer behind
    `<tool_call>`. -/
theorem example_open (isAlnum : Char → Bool) {r p f k v : List Char} (hr : '<' ∉ r) (hp : '<' ∉ p)
    {m : Marker} (hm : m ∈ exampleMarkers isAlnum (reasoned r ++ p) f k v) :
    ∃ i e, (reasoned r).length ≤ i ∧ i < (reasoned r ++ p).length ∧
      (quotedSpanEnds isAlnum (callText (reasoned r ++ p) f k v)).get? i = some e ∧
      (reasoned r ++ p).length < e := by
  obtain ⟨q, s, hreach, hq, hprose, hpos, hat, hstep⟩ :=
    reaches_call isAlnum (f := f) (k := k) (v := v) hr hp
  have hno : NoObject (callText (reasoned r ++ p) f k v) (reasoned r).length
      (reasoned r ++ p).length := by
    intro j n hj htool _
    by_contra hin
    have htext : callText (reasoned r ++ p) f k v =
        reasoned r ++ (p ++ (toolOpen ++ callBody f k v)) := by
      simp only [callText, List.append_assoc]
    rw [List.length_append] at hin
    rw [htext, ← Nat.add_sub_cancel' hj, ← List.drop_drop, List.drop_left] at htool
    exact skips_of_notMem hp _ _ (by have : toolOpen.length = 11 := rfl; omega) htool
  have hstop : (reasoned r ++ p).length < (reasoned r ++ p ++ toolOpen).length := by
    have hsum : (reasoned r ++ p ++ toolOpen).length = (reasoned r ++ p).length + 11 :=
      List.length_append
    omega
  have hfront := hq.upTo isAlnum hno
  rw [hprose.upTo hpos, Scan.upTo_last hstep hstop] at hfront
  unfold exampleMarkers at hm
  simp only at hm
  rw [(hreach.trans hprose).upTo hpos, Scan.upTo_last hstep hstop] at hm
  rcases Option.eq_none_or_eq_some s.leaveQuote.quoteEnd with he | ⟨e, he⟩
  · rw [Scan.afterExample_none he] at hm
    cases hm
  · obtain ⟨-, i, hi, hlt, hget⟩ := hfront.quote e he
    rw [Scan.leaveQuote_pos] at hlt
    have hahead := hat.ahead e he
    have htag : toolOpen.length = 11 := rfl
    exact ⟨i, e, hi, hlt.trans_le hpos, hget, by omega⟩

/-! ## 7. What stays visible -/

/-- Behind the first span, closing markers alone delimit nothing. -/
theorem spansFrom_closing (text : List Char) : ∀ (ms : List Marker) (body : Nat),
    (∀ m ∈ ms, m.opens = false) → spansFrom text none body false ms = []
  | [], _, _ => rfl
  | m :: ms, body, h => by
      unfold spansFrom
      rw [h m List.mem_cons_self, if_neg Bool.false_ne_true]
      simp only [Option.isSome_none, Bool.or_false, Bool.false_eq_true, if_false]
      exact spansFrom_closing text ms body fun m' hm' => h m' (List.mem_cons_of_mem _ hm')

/-- A span starts behind the position its markers do. -/
theorem spansFrom_ahead (text : List Char) {low : Nat} : ∀ {ms : List Marker} {start : Option Nat}
    {body : Nat}, (∀ m ∈ ms, low ≤ m.start) → (∀ s, start = some s → low ≤ s) →
      ∀ s ∈ spansFrom text start body false ms, low ≤ s.start
  | [], none, _, _, _, s, hs => by cases hs
  | [], some b, _, _, hstart, s, hs => by
      rw [spansFrom, List.mem_singleton] at hs
      subst hs
      exact hstart b rfl
  | m :: ms, start, body, hms, hstart, s, hs => by
      have hrest : ∀ m' ∈ ms, low ≤ m'.start := fun m' hm' => hms m' (List.mem_cons_of_mem _ hm')
      have hm := hms m List.mem_cons_self
      unfold spansFrom at hs
      split at hs
      · refine spansFrom_ahead text hrest (fun b hb => ?_) s hs
        cases hb
        cases start with
        | none => exact hm
        | some b => exact hstart b rfl
      · cases start with
        | none => exact spansFrom_ahead text hrest (fun b hb => by cases hb) s hs
        | some b =>
            rcases List.mem_cons.mp hs with rfl | hs
            · exact hstart b rfl
            · exact spansFrom_ahead text hrest (fun b hb => by cases hb) s hs

/-- The visible text in front of the spans is the text. -/
theorem visible_split {text : List Char} {a b : Nat} (hab : a ≤ b) {spans : List Span}
    (h : ∀ s ∈ spans, b ≤ s.start) :
    visible text a spans = region text a b ++ visible text b spans := by
  cases spans with
  | nil => exact drop_split hab
  | cons s rest =>
      unfold visible
      rw [region_split hab (h s List.mem_cons_self), List.append_assoc]

theorem afterSpan_le (text : List Char) (s : Span) : s.stop ≤ afterSpan text s := by
  unfold afterSpan
  split
  · exact Nat.le_add_right _ _
  · split
    · exact Nat.le_add_right _ _
    · exact le_rfl

/-- What is visible behind a position, where no span is open and where one is. -/
theorem visible_length (text : List Char) : ∀ (ms : List Marker) (body : Nat),
    (∀ {low pos : Nat}, low ≤ pos → low ≤ text.length → Ordered text.length low ms →
      (visible text pos (spansFrom text none body false ms)).length + low ≤ text.length) ∧
    (∀ {low low' pos s : Nat}, low ≤ pos → low ≤ s → s + 7 ≤ low' → low' ≤ text.length →
      Ordered text.length low' ms →
      (visible text pos (spansFrom text (some s) body false ms)).length + low + 7 ≤ text.length)
  | [], body => by
      refine ⟨fun hpos hlow _ => ?_, fun {low low' pos s} hpos hs hlow' hlen _ => ?_⟩
      · simp only [spansFrom, visible, List.length_drop]
        omega
      · have hle : text.length ≤ afterSpan text ⟨s, body, none, text.length⟩ :=
          afterSpan_le text ⟨s, body, none, text.length⟩
        simp only [spansFrom, visible, List.length_append, region_length, List.length_drop]
        omega
  | m :: ms, body => by
      obtain ⟨hclosed, -⟩ := visible_length text ms body
      obtain ⟨hfresh, -⟩ := visible_length text ms 0
      obtain ⟨-, hopen⟩ := visible_length text ms m.stop
      constructor
      · rintro low pos hpos hlow ⟨h₁, h₂, h₃, h₄⟩
        unfold spansFrom
        split
        · simp only [Bool.false_and, Bool.false_eq_true, if_false]
          exact (Nat.le_add_right _ 7).trans (hopen hpos h₁ h₂ h₃ h₄)
        · exact hclosed hpos hlow (h₄.mono (by omega))
      · rintro low low' pos s hpos hs hlow' hlen ⟨h₁, h₂, h₃, h₄⟩
        unfold spansFrom
        split
        · exact hopen (s := s) hpos hs (by omega) h₃ h₄
        · have hle := afterSpan_le text ⟨s, body, some m.start, m.stop⟩
          have := hfresh hle h₃ h₄
          simp only [Option.isSome_some, Bool.true_or, if_true, Option.getD_some, visible,
            List.length_append, region_length] at this ⊢
          omega

/-- **A span takes its opener out of what is visible.** -/
theorem visible_shorter (text : List Char) : ∀ {ms : List Marker} {low pos body : Nat}, low ≤ pos →
    low ≤ text.length → Ordered text.length low ms → (∃ m ∈ ms, m.opens = true) →
      (visible text pos (spansFrom text none body false ms)).length + low + 7 ≤ text.length
  | [], _, _, _, _, _, _, h => by
      obtain ⟨m, hm, -⟩ := h
      cases hm
  | m :: ms, low, pos, body, hpos, hlow, ⟨h₁, h₂, h₃, h₄⟩, h => by
      unfold spansFrom
      split
      · simp only [Bool.false_and, Bool.false_eq_true, if_false]
        exact (visible_length text ms m.stop).2 hpos h₁ h₂ h₃ h₄
      · next hm =>
        obtain ⟨m', hm', ho⟩ := h
        rcases List.mem_cons.mp hm' with rfl | hm'
        · exact absurd ho hm
        · exact visible_shorter text hpos hlow (h₄.mono (by omega)) ⟨m', hm', ho⟩

/-! ## 8. The completion without its reasoning -/

/-- An example opened in front of the call ends inside it, and behind its end reasoning is opened
    that was meant as an argument. -/
def Reopened (isAlnum : Char → Bool) (r p f k v : List Char) : Prop :=
  ∃ m ∈ exampleMarkers isAlnum (reasoned r ++ p) f k v, m.opens = true

instance (isAlnum : Char → Bool) (r p f k v : List Char) : Decidable (Reopened isAlnum r p f k v) :=
  inferInstanceAs (Decidable (∃ m ∈ _, _))

/-- Prose whose quotes, code spans and fences are all closed in front of the call reopens nothing. -/
theorem not_reopened_of_closed (isAlnum : Char → Bool) {r p f k v : List Char} (hr : '<' ∉ r)
    (hp : '<' ∉ p)
    (hclosed : ∀ i e, (reasoned r).length ≤ i → i < (reasoned r ++ p).length →
      (quotedSpanEnds isAlnum (callText (reasoned r ++ p) f k v)).get? i = some e →
        e ≤ (reasoned r ++ p).length) :
    ¬ Reopened isAlnum r p f k v := by
  rintro ⟨m, hm, -⟩
  obtain ⟨i, e, hi, hlt, hget, hover⟩ := example_open isAlnum hr hp hm
  exact absurd (hclosed i e hi hlt hget) (by omega)

/-- A value without `<think>` reopens nothing, whatever is quoted in front of it. -/
theorem not_reopened_of_no_opener (isAlnum : Char → Bool) {r p f k v : List Char} (hr : '<' ∉ r)
    (hp : '<' ∉ p) (hf : IsName f) (hk : IsName k) (hv : Unclosed v)
    (hvalue : ¬ thinkOpen <:+: v) : ¬ Reopened isAlnum r p f k v := by
  rintro ⟨m, hm, hopens⟩
  have hahead := (completion_markers isAlnum hr hp hf hk hv).2.ahead m hm
  have hstand : thinkOpen <+: (callText (reasoned r ++ p) f k v).drop m.start := by
    unfold exampleMarkers Scan.afterExample at hm
    simp only at hm
    split at hm
    · cases hm
    · rcases (Scan.markersFrom_stand _ _ m hm).2 with h | h
      · exact h.2
      · rw [hopens] at h
        cases h.1
  -- the tags of the call spell no opener
  have hcall : Skips thinkOpen (toolOpen ++ callBody f k v) :=
    (Skips.tag rfl (by decide) fun rest => by simp [thinkOpen, toolOpen]).append <|
      ((Skips.append (.named rfl rfl (by decide) (by decide) hf)
        (.named rfl rfl (by decide) (by decide) hk)).append (.value rfl (by decide) hvalue)).append <|
      (Skips.append (.tag rfl (by decide) fun rest => by simp [thinkOpen, parameterClose])
        (.tag rfl (by decide) fun rest => by simp [thinkOpen, functionClose])).append <|
        .tag rfl (by decide) fun rest => by simp [thinkOpen, toolClose]
  obtain ⟨j, hj⟩ := Nat.exists_eq_add_of_le hahead
  rw [hj, ← List.drop_drop, callText, List.append_assoc, List.drop_left] at hstand
  refine hcall [] j ?_ ((List.append_nil _).symm ▸ hstand)
  by_contra hlen
  rw [List.drop_eq_nil_of_le (by omega)] at hstand
  exact absurd (List.prefix_nil.mp hstand) (by decide)

/-- `text.lstrip("\n")` -/
def lstripNewlines (l : List Char) : List Char := l.dropWhile (· == '\n')

theorem drop_newlines (l : List Char) :
    l.drop (l.takeWhile (· == '\n')).length = lstripNewlines l := by
  unfold lstripNewlines
  induction l with
  | nil => rfl
  | cons a l ih =>
      by_cases ha : a = '\n'
      · simpa [ha] using ih
      · simp [ha]

theorem newlines_append (p : List Char) {c : Char} (hc : c ≠ '\n') (l : List Char) :
    (p ++ c :: l).takeWhile (· == '\n') = p.takeWhile (· == '\n') ∧
      lstripNewlines (p ++ c :: l) = lstripNewlines p ++ c :: l := by
  unfold lstripNewlines
  induction p with
  | nil => simp [hc]
  | cons a p ih =>
      by_cases ha : a = '\n'
      · simp [ha, ih.1, ih.2]
      · simp [ha]

section Completion

variable (isAlnum : Char → Bool) {r p f k v : List Char}

theorem completion_spans (hr : '<' ∉ r) (hp : '<' ∉ p) (hf : IsName f) (hk : IsName k)
    (hv : Unclosed v) : thinkSpans isAlnum (callText (reasoned r ++ p) f k v) =
      ⟨0, 7, some (7 + r.length), 15 + r.length⟩ ::
        spansFrom (callText (reasoned r ++ p) f k v) none 0 false
          (exampleMarkers isAlnum (reasoned r ++ p) f k v) := by
  unfold thinkSpans
  rw [(completion_markers isAlnum hr hp hf hk hv).1]
  simp [spansFrom]

/-- The reasoning is extracted whatever the call holds. -/
theorem extract_completion (hr : '<' ∉ r) (hp : '<' ∉ p) (hf : IsName f) (hk : IsName k)
    (hv : Unclosed v) : extractReasoning isAlnum (callText (reasoned r ++ p) f k v) =
      if stripChars r = [] then none else some (stripChars r) := by
  have hregion : region (callText (reasoned r ++ p) f k v) 7 (7 + r.length) = r := by
    have htext : callText (reasoned r ++ p) f k v =
        thinkOpen ++ r ++ (thinkClose ++ p ++ toolOpen ++ callBody f k v) := by
      simp only [callText, reasoned, List.append_assoc]
    have hlen : (thinkOpen ++ r).length = 7 + r.length := List.length_append
    unfold region
    rw [htext, ← hlen, List.take_left]
    rfl
  unfold extractReasoning
  rw [completion_spans isAlnum hr hp hf hk hv]
  simp only [hregion]
  cases hs : stripChars r with
  | nil => rfl
  | cons c l => rfl

/-- Behind the reasoning: the prose without its leading newlines, and the call. -/
theorem behind_reasoning (r p f k v : List Char) :
    afterSpan (callText (reasoned r ++ p) f k v) ⟨0, 7, some (7 + r.length), 15 + r.length⟩ =
      15 + r.length + (p.takeWhile (· == '\n')).length ∧
    (callText (reasoned r ++ p) f k v).drop
      (15 + r.length + (p.takeWhile (· == '\n')).length) = callText (lstripNewlines p) f k v := by
  have hdrop : (callText (reasoned r ++ p) f k v).drop (15 + r.length) = callText p f k v := by
    have htext : callText (reasoned r ++ p) f k v = reasoned r ++ callText p f k v := by
      simp only [callText, List.append_assoc]
    rw [htext, ← reasoned_length, List.drop_left]
  have hcons : callText p f k v = p ++ '<' :: (toolOpen.tail ++ callBody f k v) := by
    simp [callText, toolOpen]
  obtain ⟨htake, hrest⟩ := newlines_append p (show '<' ≠ '\n' by decide)
    (toolOpen.tail ++ callBody f k v)
  constructor
  · unfold afterSpan
    simp only [if_true]
    rw [hdrop, hcons, htake]
  · rw [← List.drop_drop, hdrop, hcons, ← htake, drop_newlines, hrest]
    simp [callText, toolOpen]

/-- **Where nothing is reopened, the completion is visible as it stands** behind its reasoning. -/
theorem strip_completion (hr : '<' ∉ r) (hp : '<' ∉ p) (hf : IsName f) (hk : IsName k)
    (hv : Unclosed v) (h : ¬ Reopened isAlnum r p f k v) :
    stripReasoning isAlnum (callText (reasoned r ++ p) f k v) =
      callText (lstripNewlines p) f k v := by
  have hclosing : ∀ m ∈ exampleMarkers isAlnum (reasoned r ++ p) f k v, m.opens = false :=
    fun m hm => Bool.eq_false_iff.mpr fun ho => h ⟨m, hm, ho⟩
  obtain ⟨hafter, hdrop⟩ := behind_reasoning r p f k v
  unfold stripReasoning
  rw [completion_spans isAlnum hr hp hf hk hv, spansFrom_closing _ _ _ hclosing]
  simp only [visible]
  rw [hafter, hdrop]
  simp [region]

/-- **Where reasoning is reopened, a piece of the call is missing.** -/
theorem strip_reopened (hr : '<' ∉ r) (hp : '<' ∉ p) (hf : IsName f) (hk : IsName k)
    (hv : Unclosed v) (h : Reopened isAlnum r p f k v) :
    ∃ rest, stripReasoning isAlnum (callText (reasoned r ++ p) f k v) = lstripNewlines p ++ rest ∧
      rest.length + 7 ≤ (toolOpen ++ callBody f k v).length := by
  have hordered := (completion_markers isAlnum hr hp hf hk hv).2
  obtain ⟨hafter, hdrop⟩ := behind_reasoning r p f k v
  have hlen : (callText (reasoned r ++ p) f k v).length =
      (reasoned r ++ p).length + (toolOpen ++ callBody f k v).length := by
    rw [callText, List.append_assoc, List.length_append]
  have hx : (reasoned r ++ p).length = 15 + r.length + p.length := by
    rw [List.length_append, reasoned_length]
  have hnewlines : (p.takeWhile (· == '\n')).length ≤ p.length :=
    (List.takeWhile_prefix _).length_le
  have hshort : (visible (callText (reasoned r ++ p) f k v) (reasoned r ++ p).length
      (spansFrom (callText (reasoned r ++ p) f k v) none 0 false
        (exampleMarkers isAlnum (reasoned r ++ p) f k v))).length + (reasoned r ++ p).length + 7 ≤
          (callText (reasoned r ++ p) f k v).length :=
    visible_shorter _ le_rfl (by omega) hordered h
  have hahead : ∀ s ∈ spansFrom (callText (reasoned r ++ p) f k v) none 0 false
      (exampleMarkers isAlnum (reasoned r ++ p) f k v), (reasoned r ++ p).length ≤ s.start :=
    spansFrom_ahead _ hordered.ahead fun s hs => by cases hs
  have hprose : region (callText (reasoned r ++ p) f k v)
      (15 + r.length + (p.takeWhile (· == '\n')).length) (reasoned r ++ p).length =
        lstripNewlines p := by
    unfold region
    rw [callText, List.append_assoc, List.take_left, ← List.drop_drop, ← reasoned_length,
      List.drop_left, drop_newlines]
  refine ⟨visible (callText (reasoned r ++ p) f k v) (reasoned r ++ p).length
    (spansFrom (callText (reasoned r ++ p) f k v) none 0 false
      (exampleMarkers isAlnum (reasoned r ++ p) f k v)), ?_, by omega⟩
  unfold stripReasoning
  rw [completion_spans isAlnum hr hp hf hk hv]
  simp only [visible]
  rw [hafter, visible_split (by omega) hahead, hprose]
  simp [region]

end Completion

end RolloutProxy.Reasoning
