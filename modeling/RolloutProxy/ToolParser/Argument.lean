/-
  File:      RolloutProxy/ToolParser/Argument.lean
  Subject:   ONE CALL WITH ONE ARGUMENT, parsed behind reasoning: when its value reaches the agent as
             it was sampled.

  * A call in the open is parsed as it stands (`qwen_call`): its value ends at its own close.
  * Behind reasoning the completion is visible as it stands exactly where nothing inside the call
    was read as reasoning; otherwise the visible text is too short to hold the value
    (`parse_call_length`).
-/
import RolloutProxy.ToolParser.Blocks
import RolloutProxy.Reasoning.Arguments

namespace RolloutProxy.ToolParser

open Reasoning

/-! ## 1. Finding the parts -/

theorem find_eq_none {pat text : List Char} {pos : Nat}
    (h : ∀ k, pos ≤ k → ¬ pat <+: text.drop k) : find pat text pos = none := by
  cases hf : find pat text pos with
  | none => rfl
  | some i =>
      obtain ⟨hi, hp, -⟩ := find_some hf
      exact absurd hp (h i hi)

/-- No occurrence of `t` starts in `l` where `t` follows: the first one is behind. -/
def SkipsTo (t l : List Char) : Prop := ∀ k, k < l.length → ¬ t <+: (l ++ t).drop k

theorem SkipsTo.of_skips {t l : List Char} (h : Skips t l) : SkipsTo t l := fun k => h t k

/-- What follows the first occurrence does not matter. -/
theorem SkipsTo.extend {t l : List Char} (h : SkipsTo t l) (rest : List Char) {k : Nat}
    (hk : k < l.length) : ¬ t <+: (l ++ t ++ rest).drop k := by
  intro hp
  refine h k hk ?_
  rw [List.drop_append_of_le_length (by rw [List.length_append]; omega)] at hp
  exact List.prefix_of_prefix_length_le hp (List.prefix_append _ _)
    (by rw [List.length_drop, List.length_append]; omega)

theorem SkipsTo.append {t l m : List Char} (hl : Skips t l) (hm : SkipsTo t m) :
    SkipsTo t (l ++ m) := by
  intro k hk hp
  rw [List.append_assoc] at hp
  rcases Nat.lt_or_ge k l.length with hlt | hge
  · exact hl _ k hlt hp
  · rw [List.length_append] at hk
    rw [show k = l.length + (k - l.length) by omega, ← List.drop_drop, List.drop_left] at hp
    exact hm _ (by omega) hp

/-- What is skipped is not found, so the search stops behind it. -/
theorem find_skips {t l : List Char} (a rest : List Char) (hne : t ≠ []) (h : SkipsTo t l) :
    find t (a ++ l ++ t ++ rest) a.length = some (a.length + l.length) := by
  refine find_eq hne (Nat.le_add_right _ _) ?_ fun k hk hlt hp => ?_
  · rw [← List.length_append, List.append_assoc (a ++ l), List.drop_left]
    exact List.prefix_append t rest
  · rw [show k = a.length + (k - a.length) by omega, ← List.drop_drop, List.append_assoc,
      List.append_assoc, List.drop_left, ← List.append_assoc] at hp
    exact h.extend rest (by omega) hp

/-- The head of a section, up to the `>` of its name. -/
def sectionHead (head name : List Char) : List Char := head ++ name ++ ['>']

/-- **A section that is the whole text.** -/
theorem splitSections_single {head close name body : List Char} (hhead : head ≠ [])
    (hclose : close ≠ []) (hname : IsName name) (hbody : Skips close body) :
    splitSections (sectionHead head name ++ body ++ close) head close = ([(name, body)], true) := by
  have htext : sectionHead head name ++ body ++ close =
      head ++ name ++ ['>'] ++ (body ++ close) := by
    simp only [sectionHead, List.append_assoc]
  have hlen : (sectionHead head name).length = head.length + name.length + 1 := by
    simp only [sectionHead, List.length_append, List.length_singleton]
  have hopen : find head (sectionHead head name ++ body ++ close) 0 = some 0 := by
    refine find_eq hhead le_rfl ?_ fun k _ hk => absurd hk (Nat.not_lt_zero k)
    rw [List.drop_zero, htext, List.append_assoc, List.append_assoc]
    exact List.prefix_append _ _
  have hend : find ['>'] (sectionHead head name ++ body ++ close) head.length =
      some (head.length + name.length) := by
    rw [htext]
    exact find_skips head (body ++ close) (by decide) (.of_skips (skips_of_notMem hname.noClose))
  have hregion : region (sectionHead head name ++ body ++ close) head.length
      (head.length + name.length) = name := by
    unfold region
    rw [htext, List.append_assoc (head ++ name), ← List.length_append, List.take_left,
      List.drop_left]
  have hline : findIn ['\n'] (sectionHead head name ++ body ++ close) head.length
      (head.length + name.length) = none := by
    unfold findIn
    refine find_eq_none fun k hk hp => hname.line ?_
    have hmem : '\n' ∈ (List.take (head.length + name.length)
        (sectionHead head name ++ body ++ close)).drop head.length := by
      rw [show k = head.length + (k - head.length) by omega, ← List.drop_drop] at hp
      exact List.mem_of_mem_drop (hp.subset List.mem_cons_self)
    exact hregion ▸ hmem
  have hstop : find close (sectionHead head name ++ body ++ close)
      (head.length + name.length + 1) = some ((sectionHead head name ++ body).length) := by
    have := find_skips (sectionHead head name) [] hclose (.of_skips hbody)
    rw [List.append_nil, hlen] at this
    rw [this, List.length_append, hlen]
  have hbodyEq : region (sectionHead head name ++ body ++ close) (head.length + name.length + 1)
      (sectionHead head name ++ body).length = body := by
    unfold region
    rw [List.take_left, ← hlen, List.drop_left]
  have hwhole : (sectionHead head name ++ body).length + close.length =
      (sectionHead head name ++ body ++ close).length := List.length_append.symm
  have hrest : find head (sectionHead head name ++ body ++ close)
      (sectionHead head name ++ body ++ close).length = none := by
    refine find_eq_none fun k hk hp => hhead ?_
    rw [List.drop_eq_nil_of_le hk] at hp
    exact List.prefix_nil.mp hp
  have hfuel : ∃ n, (sectionHead head name ++ body ++ close).length = n + 1 := by
    refine ⟨(sectionHead head name ++ body ++ close).length - 1, ?_⟩
    simp only [List.length_append] at hlen ⊢
    omega
  obtain ⟨n, hn⟩ := hfuel
  -- one round of the scan finds the section, the next one the end of the text
  have hscan : sectionsFrom head close (sectionHead head name ++ body ++ close)
      ((sectionHead head name ++ body ++ close).length + 1) ⟨[], true, 0, 0, none⟩ =
        ⟨[(name, body)], true, (sectionHead head name ++ body ++ close).length,
          (sectionHead head name ++ body ++ close).length, some (head.length + name.length)⟩ := by
    unfold sectionsFrom
    simp only [hopen, Sections.findNameEnd, Nat.zero_add, hend, hline, hregion, hname.not_blank,
      Bool.false_eq_true, if_false, hstop, hbodyEq, hname.trimmed, hwhole, List.isEmpty_nil,
      Bool.not_true, Bool.false_and, Bool.not_false, Bool.and_true, List.nil_append]
    rw [hn]
    unfold sectionsFrom
    rw [← hn]
    simp only [hrest]
  unfold splitSections
  rw [hscan]
  simp

/-- A text that starts and ends with no whitespace is trimmed. -/
theorem stripChars_markup {c d : Char} (hc : isSpace c = false) (hd : isSpace d = false)
    (l : List Char) : stripChars (c :: (l ++ [d])) = c :: (l ++ [d]) := by
  unfold stripChars
  rw [List.dropWhile_cons_of_neg (by simp [hc]), ← List.cons_append, List.reverse_append,
    List.reverse_singleton, List.singleton_append, List.dropWhile_cons_of_neg (by simp [hd]),
    ← List.singleton_append, List.reverse_append, List.reverse_reverse, List.reverse_singleton]

/-! ## 2. A call in the open -/

section Call

variable (lib : JsonLib) (types : Dict String (Dict String String)) {p f k v : List Char}

/-- The body of a function with one parameter. -/
def functionBody (k v : List Char) : List Char := parameterTag k ++ valueLines v ++ parameterClose

/-- The body of the call's block. -/
def blockBody (f k v : List Char) : List Char := functionTag f ++ functionBody k v ++ functionClose

theorem callText_block (p f k v : List Char) :
    callText p f k v = (p ++ toolOpen) ++ blockBody f k v ++ toolClose := by
  simp only [callText, callBody, callTail, blockBody, functionBody, List.append_assoc]

theorem blockBody_stripped (f k v : List Char) :
    stripChars (blockBody f k v) = blockBody f k v := by
  have hshape : ∃ l, blockBody f k v = '<' :: (l ++ ['>']) := by
    refine ⟨functionHead.tail ++ f ++ ['>'] ++ functionBody k v ++ functionClose.dropLast, ?_⟩
    simp [blockBody, functionTag, functionHead, functionClose]
  obtain ⟨l, hl⟩ := hshape
  rw [hl]
  exact stripChars_markup (by decide) (by decide) l

theorem functionBody_skips {t : List Char} (hk : IsName k) (hv : Unclosed v) (ht : t ∈ xmlClosers)
    (hne : t ≠ parameterClose) : Skips t (functionBody k v) := by
  obtain ⟨hhead, hslash⟩ := xmlClosers_head ht
  refine (Skips.append (.named hhead hslash (by decide) (by decide) hk) (hv.skips ht)).append ?_
  simp only [xmlClosers, List.mem_cons, List.not_mem_nil, or_false] at ht
  rcases ht with rfl | rfl | rfl
  · exact absurd rfl hne
  · exact .tag rfl (by decide) fun rest => by
      simp [functionClose, parameterClose]
  · exact .tag rfl (by decide) fun rest => by
      simp [toolClose, parameterClose]

theorem blockBody_skips (hf : IsName f) (hk : IsName k) (hv : Unclosed v) :
    Skips toolClose (blockBody f k v) := by
  refine (Skips.append (.named rfl rfl (by decide) (by decide) hf)
    (functionBody_skips hk hv (by decide) (by decide))).append ?_
  exact .tag rfl (by decide) fun rest => by simp [toolClose, functionClose]

/-- The markers around a value on lines of its own are one newline each. -/
theorem trimNewlines_valueLines (v : List Char) : trimNewlines (valueLines v) = v := by
  unfold trimNewlines valueLines
  simp

/-- **The block of a call with one text argument.** -/
theorem qwenBlock_call (hf : IsName f) (hk : IsName k) (hv : Unclosed v)
    (htype : declaredType types f k = some "string") {arguments : List Char}
    (hdumps : lib.dumps (.obj [(String.ofList k, .str (String.ofList v))]) = .ok arguments) :
    qwenBlock lib types (blockBody f k v) = .ok (some [⟨f, arguments⟩]) := by
  have hfunctions : splitSections (blockBody f k v) functionMarker functionClose =
      ([(f, functionBody k v)], true) :=
    splitSections_single (by decide) (by decide) hf
      (functionBody_skips hk hv (by decide) (by decide))
  have hparams : splitSections (functionBody k v) parameterMarker parameterClose =
      ([(k, valueLines v)], true) :=
    splitSections_single (by decide) (by decide) hk (hv.skips (by decide))
  have harguments : qwenArguments lib (declaredType types f) [] [(k, valueLines v)] =
      .ok [(String.ofList k, .str (String.ofList v))] := by
    unfold qwenArguments
    rw [trimNewlines_valueLines, coerce, if_pos (.inl htype), ok_bind]
    rfl
  unfold qwenBlock
  simp only [hfunctions, Bool.not_true, Bool.false_eq_true, if_false]
  unfold qwenCalls
  simp only [hparams, Bool.not_true, List.isEmpty_cons, Bool.false_and, Bool.or_false,
    Bool.false_eq_true, if_false, harguments, ok_bind, hdumps]
  rfl

/-- **A call behind prose** is parsed, and the prose is the content. -/
theorem qwen_call (hp : '<' ∉ p) (hf : IsName f) (hk : IsName k) (hv : Unclosed v)
    (htype : declaredType types f k = some "string") {arguments : List Char}
    (hdumps : lib.dumps (.obj [(String.ofList k, .str (String.ofList v))]) = .ok arguments) :
    parse (qwenBlock lib types) (callText p f k v) = .ok (stripChars p, [⟨f, arguments⟩]) := by
  -- the one block of the text, and what the parser makes of it
  have hopen : find toolOpen (callText p f k v) 0 = some p.length := by
    have := find_skips (t := toolOpen) [] (callBody f k v) (by decide)
      (.of_skips (skips_of_notMem hp))
    rw [List.length_nil, Nat.zero_add, List.nil_append] at this
    exact this
  have hclose : find toolClose (callText p f k v) (p.length + toolOpen.length) =
      some ((p ++ toolOpen).length + (blockBody f k v).length) := by
    have := find_skips (p ++ toolOpen) [] (by decide)
      (.of_skips (blockBody_skips hf hk hv))
    rw [List.append_nil, ← callText_block] at this
    rw [← List.length_append, this]
  have hregion : region (callText p f k v) (p.length + toolOpen.length)
      ((p ++ toolOpen).length + (blockBody f k v).length) = blockBody f k v := by
    unfold region
    rw [callText_block, show p.length + toolOpen.length = (p ++ toolOpen).length from
      List.length_append.symm, ← List.length_append, List.take_left, List.drop_left]
  have hend : (p ++ toolOpen).length + (blockBody f k v).length + toolClose.length =
      (callText p f k v).length := by
    rw [callText_block]
    simp only [List.length_append]
  have hblock : nextBlock (callText p f k v) 0 = some ⟨p.length, p.length + toolOpen.length,
      (p ++ toolOpen).length + (blockBody f k v).length⟩ := by
    unfold nextBlock
    simp only [hopen, hclose]
  have hretry : parseRetrying (qwenBlock lib types) (callText p f k v) ⟨p.length,
      p.length + toolOpen.length, (p ++ toolOpen).length + (blockBody f k v).length⟩ =
        .ok (⟨p.length, p.length + toolOpen.length,
          (p ++ toolOpen).length + (blockBody f k v).length⟩, some [⟨f, arguments⟩]) := by
    unfold parseRetrying Block.body
    simp only [hregion, blockBody_stripped,
      qwenBlock_call lib types hf hk hv htype hdumps, ok_bind]
    rfl
  -- nothing opens behind the block
  have hrest : ∀ fuel, parseFrom (qwenBlock lib types) (callText p f k v) fuel
      (callText p f k v).length (callText p f k v).length = .ok ([], []) := by
    intro fuel
    cases fuel with
    | zero => simp [parseFrom]
    | succ fuel =>
        have hnone : find toolOpen (callText p f k v) (callText p f k v).length = none := by
          refine find_eq_none fun k hk hp => ?_
          rw [List.drop_eq_nil_of_le hk] at hp
          cases List.prefix_nil.mp hp
        unfold parseFrom nextBlock
        simp [hnone]
  have hfront : region (callText p f k v) 0 p.length = p := by
    unfold region
    rw [callText, List.append_assoc, List.take_left, List.drop_zero]
  obtain ⟨n, hn⟩ : ∃ n, (callText p f k v).length = n + 1 :=
    ⟨(callText p f k v).length - 1, by
      have htool : toolClose.length = 12 := rfl
      omega⟩
  unfold parse
  rw [hn]
  unfold parseFrom
  simp only [hblock, hretry, ok_bind, hend, hrest, hfront]
  simp only [pure, Except.pure, ok_bind, List.append_nil]

end Call

/-! ## 3. What a value takes -/

theorem stripChars_length (l : List Char) : (stripChars l).length ≤ l.length := by
  unfold stripChars
  rw [List.length_reverse]
  refine (List.length_dropWhile_le _ _).trans ?_
  rw [List.length_reverse]
  exact List.length_dropWhile_le _ _

theorem trimNewlines_length (l : List Char) : (trimNewlines l).length ≤ l.length := by
  unfold trimNewlines
  extract_lets m
  have hm : m.length ≤ l.length := by
    unfold m
    split
    · exact Nat.le_succ _
    · exact le_rfl
  split
  · rw [List.length_dropLast]
    exact (Nat.sub_le _ _).trans hm
  · exact hm

/-- A section with its markers lies in the text. -/
theorem sectionsFrom_length {head close text : List Char} (hhead : head ≠ []) (hclose : close ≠ []) :
    ∀ (fuel : Nat) (s : Sections),
      (∀ e ∈ s.sections, head.length + e.1.length + 1 + e.2.length + close.length ≤ text.length) →
      ∀ e ∈ (sectionsFrom head close text fuel s).sections,
        head.length + e.1.length + 1 + e.2.length + close.length ≤ text.length
  | 0, _, h => h
  | fuel + 1, s, h => by
      unfold sectionsFrom
      split
      · exact h
      · next start hstart =>
        simp only
        split
        · exact h
        · next nameEnd hname =>
          split
          · exact sectionsFrom_length hhead hclose fuel _ h
          · split
            · exact sectionsFrom_length hhead hclose fuel _ h
            · split
              · exact h
              · next stop hstop =>
                refine sectionsFrom_length hhead hclose fuel _ fun e he => ?_
                rcases List.mem_append.mp he with he | he
                · exact h e he
                · rw [List.mem_singleton] at he
                  subst he
                  obtain ⟨hle, hat, -⟩ := find_some hstop
                  have hin := length_le_of_at hclose hat
                  have hnameStart : start + head.length ≤ nameEnd := by
                    unfold Sections.findNameEnd at hname
                    split at hname
                    · split at hname
                      · exact (find_some hname).1
                      · cases hname
                        omega
                    · exact (find_some hname).1
                  have hstrip := stripChars_length (region text (start + head.length) nameEnd)
                  rw [region_length] at hstrip
                  simp only [region_length]
                  omega

theorem splitSections_length {head close text : List Char} (hhead : head ≠ []) (hclose : close ≠ [])
    {name body : List Char} (h : (name, body) ∈ (splitSections text head close).1) :
    head.length + name.length + 1 + body.length + close.length ≤ text.length :=
  sectionsFrom_length hhead hclose _ ⟨[], true, 0, 0, none⟩ (fun e he => by cases he) _ h

section Values

variable {lib : JsonLib} {types : Dict String (Dict String String)}

/-- An argument comes from a parameter. -/
theorem qwenArguments_get {declared : List Char → Option String} :
    ∀ {params : List (List Char × List Char)} {arguments result : Fields},
      qwenArguments lib declared arguments params = .ok result → ∀ key : String,
        Fields.get result key = Fields.get arguments key ∨
          ∃ e ∈ params, String.ofList e.1 = key ∧
            coerce lib (trimNewlines e.2) (declared e.1) = .ok (Fields.get result key)
  | [], _, _, h, key => by cases h; exact .inl rfl
  | (k, value) :: rest, arguments, result, h, key => by
      unfold qwenArguments at h
      obtain ⟨v, hv, h⟩ := bind_ok h
      rcases qwenArguments_get h key with hkeep | ⟨e, he, hkey, hcoerce⟩
      · by_cases hk : key = String.ofList k
        · right
          refine ⟨(k, value), List.mem_cons_self, hk.symm, ?_⟩
          rw [hkeep, hk, Fields.get_set_self]
          exact hv
        · left
          rw [hkeep, Fields.get_set_ne _ _ hk]
      · exact .inr ⟨e, List.mem_cons_of_mem _ he, hkey, hcoerce⟩

/-- A call comes from a function of its block. -/
theorem qwenCalls_mem : ∀ {functions : List (List Char × List Char)} {calls : List ParsedCall},
    qwenCalls lib types functions = .ok (some calls) → ∀ c ∈ calls,
      ∃ e ∈ functions, c.name = e.1 ∧ ∃ arguments,
        qwenArguments lib (declaredType types e.1) []
          (splitSections e.2 parameterMarker parameterClose).1 = .ok arguments ∧
        lib.dumps (.obj arguments) = .ok c.arguments
  | [], _, h, c, hc => by cases h; cases hc
  | (name, body) :: rest, calls, h, c, hc => by
      unfold qwenCalls at h
      simp only at h
      split at h
      · cases h
      · obtain ⟨arguments, harguments, h⟩ := bind_ok h
        obtain ⟨text, htext, h⟩ := bind_ok h
        obtain ⟨others, hothers, h⟩ := bind_ok h
        cases others with
        | none => cases h
        | some others =>
            cases h
            rcases List.mem_cons.mp hc with rfl | hc
            · exact ⟨(name, body), List.mem_cons_self, rfl, arguments, harguments, htext⟩
            · obtain ⟨e, he, hrest⟩ := qwenCalls_mem hothers c hc
              exact ⟨e, List.mem_cons_of_mem _ he, hrest⟩

/-- **A block that holds a call with a text argument is long enough for it.** -/
theorem qwenBlock_length {block f k v : List Char} {calls : List ParsedCall} {c : ParsedCall}
    (h : qwenBlock lib types block = .ok (some calls)) (hc : c ∈ calls) (hname : c.name = f)
    (htype : declaredType types f k = some "string")
    (hdumps : ∀ d, lib.dumps (.obj d) = .ok c.arguments →
      d = [(String.ofList k, .str (String.ofList v))]) :
    (functionTag f).length + (parameterTag k).length + v.length + parameterClose.length +
      functionClose.length ≤ block.length := by
  unfold qwenBlock at h
  simp only at h
  split at h
  · cases h
  · obtain ⟨⟨name, body⟩, he, hn, arguments, harguments, htext⟩ := qwenCalls_mem h c hc
    have hf : f = name := hname.symm.trans hn
    subst hf
    have hshape := hdumps arguments htext
    subst hshape
    have hget : Fields.get [(String.ofList k, Json.str (String.ofList v))] (String.ofList k) =
        .str (String.ofList v) := by simp [Fields.get]
    rcases qwenArguments_get harguments (String.ofList k) with hkeep | ⟨⟨k', value⟩, hparam, hkey, hv⟩
    · rw [hget] at hkeep
      cases hkeep
    · have hk : k' = k := by simpa using congrArg String.toList hkey
      subst hk
      rw [hget] at hv
      unfold coerce at hv
      rw [if_pos (.inl htype)] at hv
      have hvalue : trimNewlines value = v := by
        have hstr := Json.str.inj (Except.ok.inj hv)
        simpa using congrArg String.toList hstr
      have hbody := splitSections_length (by decide) (by decide) he
      have hin := splitSections_length (by decide) (by decide) hparam
      have htrim := trimNewlines_length value
      rw [hvalue] at htrim
      have hfun : functionMarker.length = functionHead.length := rfl
      have hpar : parameterMarker.length = parameterHead.length := rfl
      simp only [functionTag, parameterTag, List.length_append, List.length_singleton] at hbody hin ⊢
      omega

/-- A call of a text comes from a block that lies in it. -/
theorem parseFrom_calls {parseBlock : BlockParser} {text : List Char} :
    ∀ {fuel last pos : Nat} {r : List Char × List ParsedCall},
      parseFrom parseBlock text fuel last pos = .ok r → ∀ c ∈ r.2, ∃ b : Block, ∃ calls,
        toolOpen <+: text.drop b.start ∧ b.bodyStart = b.start + toolOpen.length ∧
        toolClose <+: text.drop b.stop ∧ b.bodyStart ≤ b.stop ∧
        parseBlock (b.body text) = .ok (some calls) ∧ c ∈ calls
  | 0, _, _, _, h, c, hc => by cases h; cases hc
  | fuel + 1, last, pos, r, h, c, hc => by
      unfold parseFrom at h
      split at h
      · cases h
        cases hc
      · next b hb =>
        obtain ⟨-, hbody, hle, hopen, hclose⟩ := nextBlock_some hb
        obtain ⟨⟨b', calls⟩, hr, h⟩ := bind_ok h
        simp only at h
        split at h
        · next call others =>
          obtain ⟨rest, hrest, h⟩ := bind_ok h
          cases h
          rcases List.mem_append.mp (show c ∈ (call :: others) ++ rest.2 from hc) with hin | hin
          · unfold parseRetrying at hr
            obtain ⟨first, hfirst, hr⟩ := bind_ok hr
            split at hr
            · split at hr
              · next i hi =>
                obtain ⟨second, hsecond, hr⟩ := bind_ok hr
                cases hr
                unfold Block.inner at hi
                obtain ⟨j, hj, rfl⟩ := Option.map_eq_some_iff.mp hi
                obtain ⟨hlow, hlt, hat⟩ := rfind_some hj
                have hlen := hat.length_le
                rw [region_length] at hlen
                refine ⟨⟨j, j + toolOpen.length, b.stop⟩, _, ?_, rfl, hclose, ?_, hsecond, hin⟩
                · exact hat.trans (drop_le_drop (List.take_prefix _ _) _)
                · simp only
                  omega
              · cases hr
            · cases hr
              exact ⟨b, _, hopen, hbody, hclose, hle, hfirst, hin⟩
          · exact parseFrom_calls hrest c hin
        · exact parseFrom_calls h c hc

/-- **A text that holds the call is long enough for it**, behind prose without markup. -/
theorem parse_call_length {p rest f k v content : List Char} {c : ParsedCall} (hp : '<' ∉ p)
    (h : parse (qwenBlock lib types) (p ++ rest) = .ok (content, [c])) (hname : c.name = f)
    (htype : declaredType types f k = some "string")
    (hdumps : ∀ d, lib.dumps (.obj d) = .ok c.arguments →
      d = [(String.ofList k, .str (String.ofList v))]) :
    (toolOpen ++ callBody f k v).length ≤ rest.length + 2 := by
  unfold parse at h
  obtain ⟨raw, hraw, h⟩ := bind_ok h
  have hcalls : raw.2 = [c] := congrArg Prod.snd (Except.ok.inj h)
  obtain ⟨b, calls, hopen, hbody, hclose, hle, hblock, hc⟩ :=
    parseFrom_calls hraw c (by rw [hcalls]; exact List.mem_cons_self)
  have hlen := qwenBlock_length hblock hc hname htype hdumps
  have hstart : p.length ≤ b.start := by
    by_contra hlt
    exact skips_of_notMem hp rest b.start (by omega) hopen
  have hstop := length_le_of_at (by decide) hclose
  have hin := stripChars_length (region (p ++ rest) b.bodyStart b.stop)
  have hclose' : toolClose.length = 12 := rfl
  rw [region_length] at hin
  unfold Block.body at hlen
  simp only [callBody, callTail, valueLines, List.length_append, List.length_cons,
    List.length_nil] at hlen hstop ⊢
  omega

end Values

/-! ## 4. Arguments behind reasoning -/

theorem dropWhile_dropWhile {α : Type} {P Q : α → Bool} (h : ∀ a, Q a = true → P a = true)
    (l : List α) : (l.dropWhile Q).dropWhile P = l.dropWhile P := by
  induction l with
  | nil => rfl
  | cons a l ih =>
      by_cases ha : Q a = true
      · rw [List.dropWhile_cons_of_pos ha, List.dropWhile_cons_of_pos (h a ha)]
        exact ih
      · rw [List.dropWhile_cons_of_neg ha]

/-- Leading newlines are whitespace. -/
theorem stripChars_lstripNewlines (p : List Char) :
    stripChars (lstripNewlines p) = stripChars p := by
  unfold stripChars lstripNewlines
  rw [dropWhile_dropWhile]
  intro c hc
  rw [beq_iff_eq.mp hc]
  decide

/-- **An argument reaches the agent as it was sampled exactly where nothing is reopened**: no example
    opened in the prose ends inside the call, or no reasoning is opened behind its end. -/
theorem argument_verbatim_iff (isAlnum : Char → Bool) (lib : JsonLib) (tools : Json)
    (r p f k v arguments : List Char) (hr : '<' ∉ r) (hp : '<' ∉ p) (hf : IsName f) (hk : IsName k)
    (hv : Unclosed v) (htype : declaredType (parameterTypes tools) f k = some "string")
    (hdumps : ∀ d, lib.dumps (.obj d) = .ok arguments ↔
      d = [(String.ofList k, .str (String.ofList v))]) :
    (BlockDialect.qwen3Coder.parseCompletion lib isAlnum (callText (reasoned r ++ p) f k v) tools =
        .ok (stripChars p, [⟨f, arguments⟩]) ∧
      extractReasoning isAlnum (callText (reasoned r ++ p) f k v) =
        if stripChars r = [] then none else some (stripChars r)) ↔
    ¬ Reopened isAlnum r p f k v := by
  have hprose : '<' ∉ lstripNewlines p := fun hm => hp ((List.dropWhile_sublist _).subset hm)
  unfold BlockDialect.parseCompletion BlockDialect.parseBlock
  constructor
  · rintro ⟨hparse, -⟩ hreopened
    obtain ⟨rest, hstrip, hshort⟩ := strip_reopened isAlnum hr hp hf hk hv hreopened
    rw [hstrip] at hparse
    have hlong := parse_call_length (f := f) (k := k) (v := v) hprose hparse rfl htype
      fun d hd => (hdumps d).mp hd
    omega
  · intro hnot
    refine ⟨?_, extract_completion isAlnum hr hp hf hk hv⟩
    rw [strip_completion isAlnum hr hp hf hk hv hnot]
    simp only
    rw [qwen_call lib (parameterTypes tools) hprose hf hk hv htype ((hdumps _).mpr rfl),
      stripChars_lstripNewlines]

/-- An object of one text, where neither key nor text needs an escape. -/
def encodedText (key text : List Char) : List Char :=
  ['\x7b', '"'] ++ key ++ ['"', ':', ' ', '"'] ++ text ++ ['"', '\x7d']

/-- A text that JSON writes without escapes. -/
def Unescaped (text : List Char) : Bool := text.all fun c => c != '"' && c != '\\' && c != '\n'

/-- A JSON library on such objects. -/
def textJson : JsonLib where
  loads _ := .error .valueError
  dumps
    | .obj [(key, .str s)] =>
      if Unescaped key.toList && Unescaped s.toList then .ok (encodedText key.toList s.toList)
      else .error .valueError
    | _ => .error .valueError
  dumpsFinite _ := .error .valueError
  str _ := .error .valueError

/-- A function `f` whose parameter `k` is a string. -/
def textTool : Json :=
  .arr [.obj [("type", .str "function"), ("function", .obj [("name", .str "f"),
    ("parameters", .obj [("properties", .obj [("k", .obj [("type", .str "string")])])])])]]

theorem no_quote {text : List Char} (h : Unescaped text = true) : '"' ∉ text := fun hm => by
  have hc := List.all_eq_true.mp h '"' hm
  revert hc
  decide

/-- What stands in front of the first quote, and behind it. -/
theorem quoted_inj {a b x y : List Char} (ha : '"' ∉ a) (hb : '"' ∉ b)
    (h : a ++ '"' :: x = b ++ '"' :: y) : a = b ∧ x = y := by
  have hfront : ∀ {l m : List Char}, '"' ∉ l → (l ++ '"' :: m).takeWhile (· != '"') = l := by
    intro l m hl
    have hall : ∀ c ∈ l, (c != '"') = true := fun c hc =>
      bne_iff_ne.mpr fun (e : c = '"') => hl (e ▸ hc)
    rw [List.takeWhile_append_of_pos hall]
    simp
  have hab : a = b := by rw [← hfront (m := x) ha, h, hfront hb]
  subst hab
  exact ⟨rfl, (List.cons.inj (List.append_cancel_left h)).2⟩

/-- Key and text are read back as they were written. -/
theorem encodedText_inj {a b k v : List Char} (ha : '"' ∉ a) (hk : '"' ∉ k)
    (h : encodedText a b = encodedText k v) : a = k ∧ b = v := by
  simp only [encodedText, List.append_assoc, List.cons_append, List.nil_append, List.cons.injEq,
    true_and] at h
  obtain ⟨hkey, htext⟩ := quoted_inj ha hk h
  simp only [List.cons.injEq, true_and] at htext
  exact ⟨hkey, List.append_cancel_right htext⟩

theorem textJson_dumps {k v : List Char} (hk : Unescaped k = true) (hv : Unescaped v = true)
    (d : Fields) : textJson.dumps (.obj d) = .ok (encodedText k v) ↔
      d = [(String.ofList k, .str (String.ofList v))] := by
  constructor
  · intro h
    unfold textJson at h
    simp only at h
    split at h
    · next key s heq =>
      cases heq
      split at h
      · next hplain =>
        rw [Bool.and_eq_true] at hplain
        obtain ⟨hkey, hs⟩ := encodedText_inj (no_quote hplain.1) (no_quote hk) (Except.ok.inj h)
        rw [← hkey, ← hs, String.ofList_toList, String.ofList_toList]
      · cases h
    · cases h
  · rintro rfl
    simp only [textJson, String.toList_ofList, hk, hv, Bool.and_self, if_true]

/-- Prose with a code span and a quotation, both closed. -/
def quotedProse : List Char := "say `f` is \"ok\" and don't stop".toList

/-- A value that mentions reasoning, and opens a code span. -/
def thinkingValue : List Char := "a <think>x</think> ` b".toList

/-- Behind that prose the value reaches the agent with its think tags. -/
theorem argument_verbatim_mention :
    BlockDialect.qwen3Coder.parseCompletion textJson Char.isAlphanum
        (callText (reasoned ['r'] ++ quotedProse) ['f'] ['k'] thinkingValue) textTool =
      .ok (stripChars quotedProse, [⟨['f'], encodedText ['k'] thinkingValue⟩]) ∧
    extractReasoning Char.isAlphanum
        (callText (reasoned ['r'] ++ quotedProse) ['f'] ['k'] thinkingValue) =
      if stripChars ['r'] = [] then none else some (stripChars ['r']) :=
  (argument_verbatim_iff Char.isAlphanum textJson textTool _ _ _ _ _ _ (by decide) (by decide)
    ⟨by decide, by decide, by decide, by decide, by decide⟩
    ⟨by decide, by decide, by decide, by decide, by decide⟩
    (by decide) (by decide +kernel) (textJson_dumps (by decide) (by decide))).mpr (by decide +kernel)

/-- **A quoted word lets the argument go**: prose that opens a code span, a value that closes it and
    mentions reasoning behind; the mention is cut out of the value. -/
theorem argument_truncated :
    BlockDialect.qwen3Coder.parseCompletion textJson Char.isAlphanum
        (callText (reasoned ['r'] ++ "say `".toList) ['f'] ['k']
          "a` <think>x</think>".toList) textTool ≠
      .ok (stripChars "say `".toList,
        [⟨['f'], encodedText ['k'] "a` <think>x</think>".toList⟩]) := by
  decide +kernel

end RolloutProxy.ToolParser
