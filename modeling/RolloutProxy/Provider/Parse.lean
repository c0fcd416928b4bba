/-
  File:      RolloutProxy/Provider/Parse.lean
  Subject:   `parse_completion` (rollout_base.py): the decoded response of a turn, published once
             into the committed turn, and the turns that cannot be decoded.

  The ids of the calls (`call_` and random digits) come as a function of the call's position. A
  parser that raises leaves the provider as it was, so every retry raises again
  (`Undecoded.parseCompletion_failed`).
-/
import RolloutProxy.Provider.Outcome
import RolloutProxy.ToolParser.Completion

namespace RolloutProxy

/-- The exception's type. -/
def ToolParser.JsonError.toPyError : ToolParser.JsonError → PyError
  | .valueError => .other "ValueError"
  | .overflowError => .other "OverflowError"
  | .recursionError => .other "RecursionError"

/-- A dialect as the tool parser of a model. -/
def ToolParser.ToolDialect.toolParser (d : ToolParser.ToolDialect) (lib : ToolParser.JsonLib)
    (reasoning : ToolParser.ReasoningParser) (decoder : ToolParser.Decoder) : ToolParser :=
  fun ids tools completionText =>
    (d.extractCompletion lib reasoning decoder ids tools completionText).mapError
      ToolParser.JsonError.toPyError

/-- The response fields of a decoded completion; a length truncation is not upgraded. -/
def parsedResult (decoded : DecodedCompletion) (finishReason : String) (callId : Nat → String) :
    ParsedCompletion :=
  let calls := decoded.toolCalls.mapIdx fun i c => ToolCall.mk (callId i) c.1 c.2
  { content := decoded.content
    toolCalls := if calls.isEmpty then none else some calls
    finishReason :=
      if !decoded.toolCalls.isEmpty && finishReason != "length" then "tool_calls" else finishReason
    reasoningContent := decoded.reasoningContent }

namespace Provider

variable (cfg : ProviderConfig) (p : Provider)

/-- The completion parsed by a model's parser, and published into its turn. -/
def parseWith (r : ResolvedModel) (sid : String) (ids : List Int) (completionText : String)
    (finishReason : String) (tools : Json) (callId : Nat → String) :
    Except PyError ParsedCompletion × Provider :=
  let turn := (p.manager r.profile.name).committedTurn sid ids
  match turn.bind (·.parsedCompletion) with
  | some parsed => (.ok parsed, p)
  | none =>
    match r.toolParser with
    | none => (.ok ⟨some completionText, none, finishReason, none⟩, p)
    | some parser =>
      match parser ids (turn.elim tools (·.tools)) completionText with
      | .error e => (.error e, p)
      | .ok decoded =>
        let result := parsedResult decoded finishReason callId
        match turn with
        | none => (.ok result, p)
        | some turn => (.ok result, p.setManager r.profile.name
            ((p.manager r.profile.name).setParsed sid turn.id result))

/-- `parse_completion`, without another parser between its await and its publication. -/
def parseCompletion (sid : Option String) (ids : List Int) (completionText : String)
    (finishReason : String) (tools : Json) (callId : Nat → String) :
    Except PyError ParsedCompletion × Provider :=
  let plain : Except PyError ParsedCompletion × Provider :=
    (.ok ⟨some completionText, none, finishReason, none⟩, p)
  match sid with
  | none => plain
  | some sid =>
    match p.sessionModels.get? sid with
    | none => plain
    | some name =>
      if name = "" then plain else
      match cfg.resolve name with
      | .error e => (.error e, p)
      | .ok r => p.parseWith r sid ids completionText finishReason tools callId

/-! ## 2. The committed turn -/

/-- The turn of a stream that a response is decoded from: its model, and the turn the sampled ids
    belong to, not decoded yet. -/
structure Undecoded (sid : String) (ids : List Int) (r : ResolvedModel) (turn : CommittedTurn) :
    Prop where
  pinned : ∃ name, p.sessionModels.get? sid = some name ∧ name ≠ "" ∧ cfg.resolve name = .ok r
  committed : (p.manager r.profile.name).committedTurn sid ids = some turn
  fresh : turn.parsedCompletion = none

variable {cfg p}

/-- The parser of the model decides, with the tools the turn was rendered with. -/
theorem Undecoded.parseCompletion_returns {sid : String} {ids : List Int} {r : ResolvedModel}
    {turn : CommittedTurn} {parser : ToolParser} (h : p.Undecoded cfg sid ids r turn)
    (hparser : r.toolParser = some parser) (completionText finishReason : String) (tools : Json)
    (callId : Nat → String) :
    Returns (p.parseCompletion cfg (some sid) ids completionText finishReason tools callId).1 ↔
      Returns (parser ids turn.tools completionText) := by
  obtain ⟨name, hname, hne, hr⟩ := h.pinned
  unfold parseCompletion
  simp only [hname, if_neg hne, hr]
  unfold parseWith
  simp only [h.committed, Option.bind_some, h.fresh, hparser, Option.elim_some]
  cases parser ids turn.tools completionText <;> simp

/-- A parser that raises leaves the provider as it was. -/
theorem Undecoded.parseCompletion_failed {sid : String} {ids : List Int} {r : ResolvedModel}
    {turn : CommittedTurn} {parser : ToolParser} (h : p.Undecoded cfg sid ids r turn)
    (hparser : r.toolParser = some parser) {completionText finishReason : String} {tools : Json}
    {callId : Nat → String}
    (hfails : ¬ Returns (parser ids turn.tools completionText)) :
    (p.parseCompletion cfg (some sid) ids completionText finishReason tools callId).2 = p := by
  obtain ⟨name, hname, hne, hr⟩ := h.pinned
  unfold parseCompletion
  simp only [hname, if_neg hne, hr]
  unfold parseWith
  simp only [h.committed, Option.bind_some, h.fresh, hparser, Option.elim_some]
  cases hp : parser ids turn.tools completionText with
  | error e => rfl
  | ok decoded => exact absurd ⟨decoded, hp⟩ hfails

end Provider

/-! ## 3. Which sampled texts can be decoded -/

namespace ToolParser

theorem returns_mapError {ε ε' α : Type} (x : Except ε α) (f : ε → ε') :
    Returns (x.mapError f) ↔ Returns x := by
  cases x <;> simp [Except.mapError]

theorem ToolDialect.toolParser_returns (d : ToolDialect) (lib : JsonLib)
    (reasoning : ReasoningParser) (decoder : Decoder) (ids : List Int) (tools : Json)
    (completionText : String) :
    Returns (d.toolParser lib reasoning decoder ids tools completionText) ↔
      d.ReadsTokens lib reasoning decoder ids tools :=
  (returns_mapError _ _).trans (d.extractCompletion_returns lib reasoning decoder ids tools _)

/-- A value the decoder refuses for any reason it is the literal string of, where it is coerced. -/
theorem coerce_literal {lib : JsonLib} {value : List Char} {declared : Option String} {v : Json}
    {e : JsonError} (h : coerce lib value declared = .ok v) (he : lib.loads value = .error e) :
    v = .str (String.ofList value) := by
  have hv := coerce_eq lib ((coerce_returns lib value declared).mp ⟨v, h⟩)
  rw [h] at hv
  rw [Except.ok.inj hv]
  unfold coerced
  rw [he]
  split <;> rfl

/-- **A dialect parses a completion exactly where the JSON library raises nothing uncaught.** There
    what the decoder refuses stays visible, as content or as a literal value. Elsewhere a
    committed turn cannot be decoded, and the provider is left so that every retry fails too. -/
theorem parseCompletion_iff (lib : JsonLib) (reasoning : ReasoningParser) (decoder : Decoder)
    (d : ToolDialect) :
    (∀ text tools,
      (∃ r, d.parseCompletion lib reasoning text tools = .ok r ∧
        d.Keeps lib reasoning text tools r.1) ↔ d.Reads lib reasoning text tools) ∧
    (∀ value declared v e, coerce lib value declared = .ok v → lib.loads value = .error e →
      v = .str (String.ofList value)) ∧
    (∀ (p : Provider) (cfg : ProviderConfig) (sid : String) (ids : List Int) (r : ResolvedModel)
      (turn : CommittedTurn) (completionText finishReason : String) (tools : Json)
      (callId : Nat → String),
      p.Undecoded cfg sid ids r turn →
      r.toolParser = some (d.toolParser lib reasoning decoder) →
      (Returns (p.parseCompletion cfg (some sid) ids completionText finishReason tools callId).1 ↔
        d.ReadsTokens lib reasoning decoder ids turn.tools) ∧
      (¬ d.ReadsTokens lib reasoning decoder ids turn.tools →
        (p.parseCompletion cfg (some sid) ids completionText finishReason tools callId).2 = p)) := by
  refine ⟨fun text tools => ?_, fun value declared v e h he => coerce_literal h he, ?_⟩
  · rw [← d.parseCompletion_returns lib reasoning text tools]
    constructor
    · rintro ⟨r, hr, -⟩
      exact ⟨r, hr⟩
    · rintro ⟨r, hr⟩
      exact ⟨r, hr, d.parseCompletion_keeps lib reasoning hr⟩
  · intro p cfg sid ids r turn completionText finishReason tools callId hturn hparser
    have hreads := d.toolParser_returns lib reasoning decoder ids turn.tools completionText
    refine ⟨(hturn.parseCompletion_returns hparser _ _ _ _).trans hreads, fun hnot => ?_⟩
    exact hturn.parseCompletion_failed hparser fun h => hnot (hreads.mp h)

/-! ### Deep nesting -/

/-- A JSON library that counts the arrays a text opens with: more than `limit` of them are the
    recursion limit of the interpreter, and a text that stops there is malformed. -/
def nestingLib (limit : Nat) : JsonLib :=
  { loads := fun text =>
      if limit < (text.takeWhile (· = '[')).length then .error .recursionError
      else .error .valueError
    dumps := fun _ => .ok []
    dumpsFinite := fun _ => .ok []
    str := fun _ => .ok [] }

/-- A turn of `n` brackets. -/
def brackets (n : Nat) : List Char := List.replicate n '['

theorem brackets_raise {limit n : Nat} (h : limit < n) :
    (nestingLib limit).loads (brackets n) = .error .recursionError := by
  have hlen : ((brackets n).takeWhile (· = '[')).length = n := by
    simp [brackets]
  exact if_pos (h.trans_eq hlen.symm)

theorem stripChars_replicate {c : Char} (h : isSpace c = false) (n : Nat) :
    stripChars (List.replicate n c) = List.replicate n c := by
  unfold stripChars
  simp [h]

/-- Brackets beyond the limit are no turn that Llama parses. -/
theorem llamaParse_brackets {limit n : Nat} (h : limit < n) :
    llamaParse (nestingLib limit) (brackets n) = .error .recursionError := by
  have hstrip : stripChars (brackets n) = brackets n := stripChars_replicate (by decide) n
  have hcalls : parseJsonCalls (nestingLib limit) (brackets n) = .error .recursionError := by
    obtain ⟨k, rfl⟩ := Nat.exists_eq_add_of_lt h
    have hcons : brackets (limit + k + 1) = '[' :: brackets (limit + k) := List.replicate_succ
    unfold parseJsonCalls
    rw [hcons]
    simp only
    rw [if_pos (by decide), ← hcons, brackets_raise h]
  unfold llamaParse
  rw [hstrip, hcalls]
  rfl

/-- An id is as many brackets. -/
def bracketText : List Int → List Char
  | [] => []
  | [n] => brackets n.toNat
  | n :: ids => brackets n.toNat ++ bracketText ids

def bracketDecoder : Decoder := ⟨bracketText, bracketText⟩

/-- A Llama model that samples brackets. -/
def bracketModel : ResolvedModel :=
  { silentModel with
    toolParser := some (ToolDialect.llama3Json.toolParser (nestingLib 1000) noReasoning
      bracketDecoder) }

def bracketConfig : ProviderConfig := { silentConfig with resolve := fun _ => .ok bracketModel }

/-- A stream behind one committed turn, with the completion `[n]`. -/
def bracketProvider (n : Int) : Provider :=
  { Provider.empty with
    sessionModels := Dict.empty.set "s-a" "m"
    managers := Dict.empty.set "m"
      ⟨Dict.empty.set "s-a" { committedOnce with stream := [1, n] }, ∅, 1⟩ }

theorem bracketProvider_undecoded (n : Int) :
    (bracketProvider n).Undecoded bracketConfig "s-a" [n] bracketModel
      ⟨0, 1, [.finite 0], "stop", .empty, none, .null⟩ where
  pinned := ⟨"m", rfl, by decide, rfl⟩
  committed := by
    change (if [n].length ≠ 1 ∨ lastN 1 [1, n] ≠ [n] then none else some _) = some _
    exact if_neg (by simp [lastN])
  fresh := rfl

/-- The turn of that stream, decoded. -/
def decodedBrackets (n : Int) : Except PyError ParsedCompletion × Provider :=
  (bracketProvider n).parseCompletion bracketConfig (some "s-a") [n] "" "stop" .null
    fun _ => "call_0"

/-- A committed turn of 1001 brackets is not decoded, and stays so; one of three is. -/
theorem parseCompletion_iff_decoded :
    ¬ Returns (decodedBrackets 1001).1 ∧ (decodedBrackets 1001).2 = bracketProvider 1001 ∧
      Returns (decodedBrackets 3).1 := by
  have hiff : ∀ n, (Returns (decodedBrackets n).1 ↔ ToolDialect.llama3Json.ReadsTokens
        (nestingLib 1000) noReasoning bracketDecoder [n] .null) ∧
      (¬ ToolDialect.llama3Json.ReadsTokens (nestingLib 1000) noReasoning bracketDecoder [n] .null →
        (decodedBrackets n).2 = bracketProvider n) := fun n =>
    (parseCompletion_iff (nestingLib 1000) noReasoning bracketDecoder .llama3Json).2.2
      (bracketProvider n) bracketConfig "s-a" [n] bracketModel _ "" "stop" .null _
      (bracketProvider_undecoded n) rfl
  have hfails : ¬ ToolDialect.llama3Json.ReadsTokens (nestingLib 1000) noReasoning bracketDecoder
      [1001] .null := by
    intro h
    obtain ⟨r, hr⟩ := (llamaParse_returns (nestingLib 1000) (brackets 1001)).mpr h
    rw [llamaParse_brackets (by decide)] at hr
    cases hr
  refine ⟨fun h => hfails ((hiff 1001).1.mp h), (hiff 1001).2 hfails, (hiff 3).1.mpr ?_⟩
  exact (llamaParse_returns (nestingLib 1000) (brackets 3)).mp ⟨(['[', '[', '['], []), rfl⟩

/-- **No dialect promises to parse what a model samples**: a Llama turn of 1001 brackets raises. -/
theorem brackets_not_parsed :
    ToolDialect.llama3Json.parseCompletion (nestingLib 1000) noReasoning (brackets 1001) .null =
      .error .recursionError :=
  llamaParse_brackets (by decide)

end ToolParser

end RolloutProxy
