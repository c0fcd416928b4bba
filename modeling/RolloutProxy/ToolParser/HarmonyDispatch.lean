/-
  File:      RolloutProxy/ToolParser/HarmonyDispatch.lean
  Subject:   WHERE THE MESSAGES OF A HARMONY COMPLETION GO: reasoning, content or calls, each to one
             of them and in their order.

  * `HarmonyMessage.Goes` says where a message belongs; `piece_goes` that it goes there, where its
    piece is returned.
  * A body whose JSON is nested beyond the interpreter's limit is no piece, and no completion:
    `harmony_exact` is the exact condition.
-/
import RolloutProxy.ToolParser.HarmonyWritten
import RolloutProxy.ToolParser.PythonJson
import RolloutProxy.Provider.Parse

namespace RolloutProxy.ToolParser

/-! ## 1. Where a message belongs -/

/-- `HarmonyToolParser.decode_completion`. -/
def decodeCompletion (lib : JsonLib) (decoder : Decoder) (ids : List Int) :
    Except JsonError HarmonyCompletion :=
  parseMessages lib (tokenMessages decoder ids)

/-- The arguments are a finite JSON object. -/
def FiniteObject (lib : JsonLib) (arguments : List Char) : Prop :=
  ∃ fields t, lib.loads arguments = .ok (.obj fields) ∧ lib.dumpsFinite (.obj fields) = .ok t

namespace HarmonyMessage

/-- A finished call of the function `name`. -/
structure CallOf (lib : JsonLib) (m : HarmonyMessage) (name : List Char) : Prop where
  named : name ≠ []
  recipient : m.recipient = some (functionsHead ++ name)
  ending : m.ending = some .call
  arguments : FiniteObject lib (stripChars m.body)

/-- The body is shown where it is spoken of: as content whole, else trimmed. -/
inductive Shows (m : HarmonyMessage) : Piece → Prop
  | content : Shows m (.content m.body)
  | reasoning : Shows m (.reasoning (stripChars m.body))
  | call (name : List Char) : Shows m (.call ⟨name, stripChars m.body⟩)

/-- **Where a message goes**: a body that is not blank to one piece that shows it, to the calls
    exactly when it is one, and to the reasoning exactly when it is an analysis. -/
structure Goes (lib : JsonLib) (m : HarmonyMessage) (p : Piece) : Prop where
  shown : (∃ ch ∈ m.body, isSpace ch = false) → m.Shows p
  nothing : p = .nothing ∨ m.Shows p
  called : ∀ name, (∃ arguments, p = .call ⟨name, arguments⟩) ↔ m.CallOf lib name
  reasoned : (∃ ch ∈ m.body, isSpace ch = false) →
    ((∃ t, p = .reasoning t) ↔ m.recipient = none ∧ m.channel = some analysisWord)

end HarmonyMessage

/-- A completion is returned, and each message went to its piece of it. -/
def Distributed (lib : JsonLib) (messages : List HarmonyMessage)
    (completion : Except JsonError HarmonyCompletion) : Prop :=
  ∃ pieces, List.Forall₂ (HarmonyMessage.Goes lib) messages pieces ∧
    completion = .ok
      { content := paragraphs (pieces.filterMap Piece.contentText)
        reasoningContent :=
          match pieces.filterMap Piece.reasoningText with
          | [] => none
          | parts => some (paragraphs parts)
        toolCalls := pieces.filterMap Piece.parsedCall }

/-! ## 2. Each message -/

section Piece

variable {lib : JsonLib} {m : HarmonyMessage} {p : Piece}

/-- A body that is not blank is not trimmed away. -/
theorem stripChars_ne_nil {t : List Char} (h : ∃ ch ∈ t, isSpace ch = false) :
    stripChars t ≠ [] := by
  intro hnil
  obtain ⟨ch, hch, hs⟩ := h
  rw [stripChars_eq_nil hnil ch hch] at hs
  cases hs

theorem visible_shows (h : ∃ ch ∈ m.body, isSpace ch = false) : m.Shows m.visible := by
  obtain ⟨ch, hch, -⟩ := h
  have hne : m.body.isEmpty = false := List.isEmpty_eq_false_iff.mpr (List.ne_nil_of_mem hch)
  rw [HarmonyMessage.visible, hne]
  exact .content

theorem visible_cases (m : HarmonyMessage) :
    m.visible = .nothing ∨ m.visible = .content m.body := by
  unfold HarmonyMessage.visible
  split
  · exact .inl rfl
  · exact .inr rfl

/-- A message that is shown as content goes there, unless it is a call or an analysis. -/
theorem goes_visible (hcall : ∀ name, ¬ m.CallOf lib name)
    (hanalysis : ¬ (m.recipient = none ∧ m.channel = some analysisWord)) :
    m.Goes lib m.visible where
  shown := visible_shows
  nothing := by
    rcases visible_cases m with h | h <;> rw [h]
    · exact .inl rfl
    · exact .inr .content
  called name := by
    refine iff_of_false ?_ (hcall name)
    rcases visible_cases m with h | h <;> rw [h] <;> exact nofun
  reasoned _ := by
    refine iff_of_false ?_ hanalysis
    rcases visible_cases m with h | h <;> rw [h] <;> exact nofun

/-- A decoded value is what was loaded, and it is finite. -/
theorem decodeArguments_some {arguments : List Char} {v : Json} :
    decodeArguments lib arguments = .ok (some v) ↔
      lib.loads arguments = .ok v ∧ ∃ t, lib.dumpsFinite v = .ok t := by
  have hrefused : ∀ e : JsonError, (refused e : Except JsonError (Option Json)) ≠ .ok (some v) := by
    intro e h
    cases e <;> cases h
  unfold decodeArguments
  cases lib.loads arguments with
  | error e => exact iff_of_false (hrefused e) nofun
  | ok w =>
    simp only
    cases hd : lib.dumpsFinite w with
    | error e =>
      refine iff_of_false (hrefused e) fun ⟨hw, t, ht⟩ => ?_
      cases hw
      rw [hd] at ht
      cases ht
    | ok t =>
      constructor
      · intro h
        cases h
        exact ⟨rfl, t, hd⟩
      · rintro ⟨hw, -⟩
        cases hw
        rfl

/-- A finished call has a recipient that is a function. -/
theorem isCall_iff : m.isCall = true ↔
    ∃ name, m.recipient = some (functionsHead ++ name) ∧ m.ending = some .call := by
  unfold HarmonyMessage.isCall
  cases m.recipient with
  | none => exact iff_of_false Bool.false_ne_true nofun
  | some r =>
    rw [Bool.and_eq_true, beq_iff_eq, List.isPrefixOf_iff_prefix]
    constructor
    · rintro ⟨⟨name, rfl⟩, he⟩
      exact ⟨name, rfl, he⟩
    · rintro ⟨name, hr, he⟩
      cases hr
      exact ⟨List.prefix_append _ _, he⟩

/-- **A message without a recipient** is an analysis, or content. -/
theorem goes_unaddressed (hr : m.recipient = none) :
    m.Goes lib (if m.channel = some analysisWord then
      (if (stripChars m.body).isEmpty then .nothing else .reasoning (stripChars m.body))
      else m.visible) := by
  have hcall : ∀ name, ¬ m.CallOf lib name := fun name hc => by
    have hsome := hc.recipient
    rw [hr] at hsome
    cases hsome
  split
  · next hanalysis =>
    split
    · next hblank =>
      have hnone : ¬ ∃ ch ∈ m.body, isSpace ch = false := fun h =>
        stripChars_ne_nil h (List.isEmpty_iff.mp hblank)
      exact
        { shown := fun h => absurd h hnone
          nothing := .inl rfl
          called := fun name => iff_of_false nofun (hcall name)
          reasoned := fun h => absurd h hnone }
    · exact
        { shown := fun _ => .reasoning
          nothing := .inr .reasoning
          called := fun name => iff_of_false nofun (hcall name)
          reasoned := fun _ => iff_of_true ⟨_, rfl⟩ ⟨hr, hanalysis⟩ }
  · next hanalysis => exact goes_visible hcall fun hboth => hanalysis hboth.2

/-- **A finished call** goes to the calls when its arguments are an object and it has a name. -/
theorem goes_call {name : List Char} (hr : m.recipient = some (functionsHead ++ name))
    (he : m.ending = some .call) {o : Option Json} :
    decodeArguments lib (stripChars m.body) = .ok o → m.Goes lib (match o with
      | some (.obj _) => if name.isEmpty then m.visible else .call ⟨name, stripChars m.body⟩
      | _ => m.visible) := by
  intro ho
  have hanalysis : ¬ (m.recipient = none ∧ m.channel = some analysisWord) := fun h => by
    have hnone := h.1
    rw [hr] at hnone
    cases hnone
  have hname : ∀ {name'}, m.CallOf lib name' → name' = name := fun hc => by
    have hsome := hc.recipient
    rw [hr] at hsome
    exact (List.append_cancel_left (Option.some.inj hsome)).symm
  -- the arguments of a call are decoded to an object
  have hobject : ∀ {name'}, m.CallOf lib name' → ∃ fields, o = some (.obj fields) := fun hc => by
    obtain ⟨fields, t, hloads, hdumps⟩ := hc.arguments
    rw [decodeArguments_some.mpr ⟨hloads, t, hdumps⟩] at ho
    exact ⟨fields, (Except.ok.inj ho).symm⟩
  have hread : ∀ {fields}, o = some (.obj fields) → FiniteObject lib (stripChars m.body) :=
    fun {fields} h => by
      rw [h] at ho
      obtain ⟨hloads, t, hdumps⟩ := decodeArguments_some.mp ho
      exact ⟨fields, t, hloads, hdumps⟩
  clear ho
  split
  · next fields =>
    split
    · next hempty =>
      refine goes_visible (fun name' hc => hc.named ?_) hanalysis
      rw [hname hc, List.isEmpty_iff.mp hempty]
    · next hne =>
      exact
        { shown := fun _ => .call name
          nothing := .inr (.call name)
          called := fun name' => by
            constructor
            · rintro ⟨arguments, h⟩
              cases h
              exact ⟨fun h => hne (List.isEmpty_iff.mpr h), hr, he, hread rfl⟩
            · intro hc
              rw [hname hc]
              exact ⟨_, rfl⟩
          reasoned := fun _ => iff_of_false nofun hanalysis }
  · next hnot =>
    refine goes_visible (fun name' hc => ?_) hanalysis
    obtain ⟨fields, rfl⟩ := hobject hc
    exact hnot fields rfl

/-- **A message goes where it belongs.** -/
theorem piece_goes (h : m.piece lib = .ok p) : m.Goes lib p := by
  unfold HarmonyMessage.piece at h
  cases hr : m.recipient with
  | none =>
    simp only [hr] at h
    have hgoes : m.Goes lib (if m.channel = some analysisWord then
        (if (stripChars m.body).isEmpty then .nothing else .reasoning (stripChars m.body))
        else m.visible) := goes_unaddressed hr
    split at h
    · next hanalysis =>
      rw [if_pos hanalysis] at hgoes
      exact (Except.ok.inj h) ▸ hgoes
    · next hanalysis =>
      rw [if_neg hanalysis] at hgoes
      exact (Except.ok.inj h) ▸ hgoes
  | some recipient =>
    simp only [hr, HarmonyMessage.handoff] at h
    split at h
    · next hcall =>
      obtain ⟨name, hname, he⟩ := isCall_iff.mp hcall
      obtain rfl : recipient = functionsHead ++ name := Option.some.inj (hr.symm.trans hname)
      obtain ⟨o, ho, h⟩ := bind_ok h
      rw [List.drop_left] at h
      have hgoes := goes_call hname he ho
      clear ho
      split at h
      · exact (Except.ok.inj h) ▸ hgoes
      · next hnot =>
        split at hgoes
        · next fields => exact absurd rfl (hnot fields)
        · exact (Except.ok.inj h) ▸ hgoes
    · next hcall =>
      obtain rfl := Except.ok.inj h
      refine goes_visible (fun name hc => hcall (isCall_iff.mpr ⟨name, hc.recipient, hc.ending⟩)) ?_
      rw [hr]
      exact fun h => nomatch h.1

/-- What goes to the reasoning is spoken. -/
theorem piece_spoken {t : List Char} (h : m.piece lib = .ok (.reasoning t)) : t ≠ [] := by
  have hvisible : m.visible ≠ .reasoning t := by
    rcases visible_cases m with hv | hv <;> rw [hv] <;> exact nofun
  unfold HarmonyMessage.piece at h
  split at h
  · split at h
    · split at h
      · cases h
      · next hne =>
        cases h
        exact fun hnil => hne (List.isEmpty_iff.mpr hnil)
    · exact absurd (Except.ok.inj h) hvisible
  · unfold HarmonyMessage.handoff at h
    split at h
    · obtain ⟨o, -, h⟩ := bind_ok h
      split at h
      · split at h
        · exact absurd (Except.ok.inj h) hvisible
        · cases h
      · exact absurd (Except.ok.inj h) hvisible
    · exact absurd (Except.ok.inj h) hvisible

end Piece

/-! ## 3. Whole completions -/

section Completion

variable {lib : JsonLib}

/-- Texts that are not empty are joined to one that is not. -/
theorem paragraphs_isEmpty : ∀ {parts : List (List Char)}, (∀ t ∈ parts, t ≠ []) →
    (paragraphs parts).isEmpty = parts.isEmpty
  | [], _ => rfl
  | t :: parts, h => by
      have ht : t ≠ [] := h t List.mem_cons_self
      have hne : paragraphs (t :: parts) ≠ [] := fun hnil =>
        ht (List.infix_nil.mp (hnil ▸ infix_paragraphs List.mem_cons_self))
      rw [List.isEmpty_eq_false_iff.mpr hne]
      rfl

/-- **What is returned is distributed.** -/
theorem parseMessages_distributed {messages : List HarmonyMessage} :
    Distributed lib messages (parseMessages lib messages) ↔
      Returns (parseMessages lib messages) := by
  constructor
  · rintro ⟨pieces, -, h⟩
    exact ⟨_, h⟩
  · rintro ⟨r, hr⟩
    unfold parseMessages at hr ⊢
    obtain ⟨pieces, hp, -⟩ := bind_ok hr
    have hpieces := mapM_ok_iff.mp hp
    have hspoken : ∀ t ∈ pieces.filterMap Piece.reasoningText, t ≠ [] := by
      intro t ht
      obtain ⟨piece, hmem, hpiece⟩ := List.mem_filterMap.mp ht
      obtain ⟨m, -, hm⟩ := forall₂_right hpieces piece hmem
      cases piece with
      | reasoning t' =>
        obtain rfl := Option.some.inj hpiece
        exact piece_spoken hm
      | _ => cases hpiece
    refine ⟨pieces, hpieces.imp fun _ _ h => piece_goes h, ?_⟩
    rw [hp]
    have hempty := paragraphs_isEmpty hspoken
    cases hparts : pieces.filterMap Piece.reasoningText with
    | nil =>
      show Except.ok _ = _
      rw [hparts]
      rfl
    | cons t parts =>
      rw [hparts] at hempty
      show Except.ok _ = _
      rw [hparts, hempty]
      rfl

/-- **Harmony parsing is structural and exact**: what is written is read back message by message,
    and every completion is distributed to reasoning, content and calls, unless the body of a
    finished call is nested too deep. -/
theorem harmony_exact (lib : JsonLib) (decoder : Decoder) :
    (∀ c : WrittenCompletion, c.Spelled decoder.raw →
      tokenMessages decoder c.tokens = c.messages.map fun m => m.message decoder.raw) ∧
    ∀ ids, Distributed lib (tokenMessages decoder ids) (decodeCompletion lib decoder ids) ↔
      ∀ m ∈ tokenMessages decoder ids, HarmonyReads lib m :=
  ⟨fun _ h => h.read, fun ids =>
    parseMessages_distributed.trans (parseMessages_returns lib (tokenMessages decoder ids))⟩

end Completion

/-! ### A completion of three messages -/

/-- A tokenizer whose ids are code points. -/
def codePoints : Decoder where
  raw ids := ids.map fun t => Char.ofNat t.toNat
  plain ids := ids.map fun t => Char.ofNat t.toNat

/-- The ids of a text. -/
def codes (text : List Char) : List Int := text.map fun c => (c.toNat : Int)

theorem codePoints_codes (text : List Char) : codePoints.raw (codes text) = text := by
  simp only [codePoints, codes, List.map_map]
  refine (List.map_congr_left fun c _ => ?_).trans (List.map_id text)
  exact Char.ofNat_toNat c

def commentaryWord : List Char := "commentary".toList

/-- Reasoning that spells one marker out and holds another, an answer up to the next message, and a
    call that is addressed in front of its channel. -/
def threeMessages : WrittenCompletion where
  lead := true
  messages :=
    [{ channel := "analysis".toList
       recipient := none
       early := false
       headIds := codes assistantWord
       channelIds := codes "analysis".toList
       body := [.run (codes "not <|end|> yet".toList), .marker .channel]
       ending := some .stop },
      { channel := "final".toList
        recipient := none
        early := false
        headIds := codes assistantWord
        channelIds := codes "final".toList
        body := [.run (codes "done".toList)]
        ending := none },
      { channel := commentaryWord
        recipient := some "functions.f".toList
        early := true
        headIds := codes "assistant to=functions.f".toList
        channelIds := codes commentaryWord
        body := [.run (codes "\x7b\x7d".toList)]
        ending := some .call }]

theorem threeMessages_spelled : threeMessages.Spelled codePoints.raw where
  first := by
    rintro m rest h
    cases h
    refine ⟨?_, List.forall_mem_cons.mpr ⟨?_, List.forall_mem_cons.mpr ⟨?_, nofun⟩⟩⟩
    · exact
        { channel := ⟨by decide, unspaced_of_all (by decide)⟩
          plain := by decide
          recipient := nofun
          head := ⟨⟨by decide, by decide⟩, codePoints_codes _⟩
          channelRun := ⟨⟨by decide, by decide⟩, codePoints_codes _⟩
          bodyRuns := ⟨⟨by decide, by decide⟩, trivial⟩
          bodyMarkers := fun s hs => by
            simp only [List.mem_cons, reduceCtorEq, false_or, List.not_mem_nil, or_false,
              TokenPiece.marker.injEq] at hs
            rw [hs]
            decide }
    · exact
        { channel := ⟨by decide, unspaced_of_all (by decide)⟩
          plain := by decide
          recipient := nofun
          head := ⟨⟨by decide, by decide⟩, codePoints_codes _⟩
          channelRun := ⟨⟨by decide, by decide⟩, codePoints_codes _⟩
          bodyRuns := ⟨by decide, by decide⟩
          bodyMarkers := fun s hs => by cases List.mem_singleton.mp hs }
    · exact
        { channel := ⟨by decide, unspaced_of_all (by decide)⟩
          plain := by decide
          recipient := fun r hr => by
            cases hr
            exact ⟨⟨by decide, unspaced_of_all (by decide)⟩, by decide, by decide⟩
          head := ⟨⟨by decide, by decide⟩, codePoints_codes _⟩
          channelRun := ⟨⟨by decide, by decide⟩, codePoints_codes _⟩
          bodyRuns := ⟨by decide, by decide⟩
          bodyMarkers := fun s hs => by cases List.mem_singleton.mp hs }
  endings :=
    ⟨fun s hs => (Option.some.inj hs).symm, nofun, fun s hs => by
      cases hs
      rfl⟩

/-- Python's library without a limit reads every body. -/
theorem harmonyReads_python (repr : Rat → List Char) (m : HarmonyMessage) :
    HarmonyReads (pythonJson repr) m := by
  refine fun _ => ⟨?_, fun v _ => ?_⟩
  · change decodedOr (loads (stripChars m.body)) ≠ _
    cases loads (stripChars m.body) with
    | none => exact nofun
    | some v => exact nofun
  · unfold NoRecursionError pythonJson
    simp only
    split
    · exact nofun
    · exact nofun

/-- The three messages are read back and distributed. -/
theorem harmony_exact_threeMessages :
    tokenMessages codePoints threeMessages.tokens =
        threeMessages.messages.map (fun m => m.message codePoints.raw) ∧
      Distributed (pythonJson exactRepr) (tokenMessages codePoints threeMessages.tokens)
        (decodeCompletion (pythonJson exactRepr) codePoints threeMessages.tokens) :=
  ⟨(harmony_exact (pythonJson exactRepr) codePoints).1 _ threeMessages_spelled,
    ((harmony_exact (pythonJson exactRepr) codePoints).2 _).mpr fun m _ =>
      harmonyReads_python exactRepr m⟩

/-! ### A call that is nested too deep -/

/-- The ids of `commentary to=functions.f`. -/
def deepHeader : List Int :=
  (commentaryWord ++ ' ' :: (recipientHead ++ (functionsHead ++ ['f']))).map fun c => (c.toNat : Int)

/-- A call of `f` whose arguments are `n + 1` opening brackets. -/
def deepCall (n : Nat) : WrittenCompletion where
  lead := false
  messages :=
    [{ channel := commentaryWord
       recipient := some (functionsHead ++ ['f'])
       early := false
       headIds := []
       channelIds := deepHeader
       body := [.run (List.replicate (n + 1) 91)]
       ending := some .call }]

theorem deepCall_spelled (n : Nat) : (deepCall n).Spelled codePoints.raw where
  first := by
    rintro m rest h
    cases h
    refine ⟨?_, fun m' hm' => absurd hm' List.not_mem_nil⟩
    have hword : Word commentaryWord := ⟨by decide, unspaced_of_all (by decide)⟩
    have hplain : ¬ recipientHead <+: commentaryWord := by decide
    have hheader : TextRun deepHeader := ⟨by decide, by decide⟩
    have htext : codePoints.raw deepHeader =
        commentaryWord ++ ' ' :: (recipientHead ++ (functionsHead ++ ['f'])) := by decide
    exact
      { channel := hword
        plain := hplain
        recipient := fun r hr => by
          cases hr
          exact ⟨⟨by decide, unspaced_of_all (by decide)⟩, by decide, by decide⟩
        head := rfl
        channelRun := ⟨hheader, htext⟩
        bodyRuns := ⟨by simp, fun t ht => by
          rw [List.eq_of_mem_replicate ht]
          decide⟩
        bodyMarkers := fun s hs => by cases List.mem_singleton.mp hs }
  endings := fun s hs => by
    cases hs
    rfl

/-- **A call that is nested too deep is no completion**: 1001 brackets, and nothing is returned. -/
theorem deepCall_not_distributed :
    ¬ Distributed (nestingLib 1000) (tokenMessages codePoints (deepCall 1000).tokens)
      (decodeCompletion (nestingLib 1000) codePoints (deepCall 1000).tokens) := by
  intro h
  have hreads := (parseMessages_returns _ _).mp (parseMessages_distributed.mp h)
  rw [(deepCall_spelled 1000).read] at hreads
  have hdeep : NoRecursionError ((nestingLib 1000).loads (stripChars
      ([TokenPiece.run (List.replicate 1001 91)].flatMap (TokenPiece.text codePoints.raw)))) :=
    (hreads _ (List.mem_singleton.mpr rfl) rfl).1
  have hbody : ([TokenPiece.run (List.replicate 1001 91)].flatMap
      (TokenPiece.text codePoints.raw)) = brackets 1001 := by
    rw [List.flatMap_singleton]
    exact List.map_replicate
  rw [hbody, brackets, stripChars_replicate (by decide)] at hdeep
  exact hdeep (brackets_raise (by decide))

end RolloutProxy.ToolParser
