/-
  File:      RolloutProxy/ToolParser/Completion.lean
  Subject:   THE FIVE DIALECTS ON A WHOLE COMPLETION: which completions they parse, what of them
             stays visible, and which sampled turns the provider can decode.

  * `ToolDialect.Reads` collects what Readable.lean says of the parts a dialect hands to the JSON
    library; `parseCompletion_iff` is the exact condition.
  * A turn whose completion is not readable stays undecodable: `parse_completion` raises and
    leaves the provider as it was, so every retry raises again (Provider/Parse.lean).
-/
import RolloutProxy.ToolParser.Readable
import RolloutProxy.Provider.State

namespace RolloutProxy.ToolParser

/-! ## 1. Dialects -/

/-- The parsers of `_PARSERS`. -/
inductive ToolDialect where
  | block (d : BlockDialect)
  | llama3Json
  | gptOss
  deriving DecidableEq

/-- A reasoning parser of a profile. -/
structure ReasoningParser where
  strip : List Char → List Char
  extract : List Char → Option (List Char)

/-- `NoReasoning`. -/
def noReasoning : ReasoningParser := ⟨id, fun _ => none⟩

/-- `tokenizer.decode`, with and without its special tokens. -/
structure Decoder where
  raw : List Int → List Char
  plain : List Int → List Char

/-- The messages of a serialized completion. -/
def textMessages (text : List Char) : List HarmonyMessage :=
  assistantMessages (textParts (text.length + 1) [] text)

/-- The messages of sampled ids. -/
def tokenMessages (decoder : Decoder) (ids : List Int) : List HarmonyMessage :=
  assistantMessages (tokenParts decoder.raw [] ids)

namespace ToolDialect

variable (lib : JsonLib) (reasoning : ReasoningParser) (decoder : Decoder)

/-- `parse_completion`. -/
def parseCompletion (d : ToolDialect) (text : List Char) (tools : Json) :
    Except JsonError (List Char × List ParsedCall) :=
  match d with
  | .block d => parse (d.parseBlock lib tools) (reasoning.strip text)
  | .llama3Json => llamaParse lib (reasoning.strip text)
  | .gptOss => do
    let r ← parseMessages lib (textMessages text)
    return (r.content, r.toolCalls)

/-- `extract_completion`: reasoning is best-effort, so it raises where the calls do. -/
def extractCompletion (d : ToolDialect) (ids : List Int) (tools : Json)
    (completionText : String) : Except JsonError DecodedCompletion :=
  let calls (l : List ParsedCall) := l.map fun c => (String.ofList c.name, String.ofList c.arguments)
  match d with
  | .gptOss => do
    let r ← parseMessages lib (tokenMessages decoder ids)
    return ⟨some (String.ofList r.content), r.reasoningContent.map String.ofList, calls r.toolCalls⟩
  | d => do
    let r ← d.parseCompletion lib reasoning (decoder.plain ids) tools
    return ⟨some (String.ofList r.1),
      (reasoning.extract completionText.toList).map String.ofList, calls r.2⟩

end ToolDialect

/-! ## 2. What can be read -/

/-- A block of a dialect can be read: its body, and where that holds no call the inner one. -/
def BlockDialect.BlockReads (lib : JsonLib) (tools : Json) (d : BlockDialect) (text : List Char)
    (b : Block) : Prop :=
  match d with
  | .hermes => HermesReads lib (b.body text) ∧
      (¬ HoldsCall lib (b.body text) → ∀ i, b.inner text = some i → HermesReads lib (i.body text))
  | .qwen3Coder => QwenReads lib (parameterTypes tools) (b.body text) ∧
      ((blockFunctions (b.body text)).2 = true ∧ (blockFunctions (b.body text)).1 = [] →
        ∀ i, b.inner text = some i → QwenReads lib (parameterTypes tools) (i.body text))
  | .glm47 => GlmReads lib (parameterTypes tools) (b.body text)

theorem BlockDialect.blockReads_iff (lib : JsonLib) (tools : Json) (d : BlockDialect)
    (text : List Char) (b : Block) :
    Returns (parseRetrying (d.parseBlock lib tools) text b) ↔ d.BlockReads lib tools text b := by
  rw [parseRetrying_returns]
  cases d with
  | hermes =>
    simp only [BlockDialect.parseBlock, BlockDialect.BlockReads, hermesBlock_returns]
    refine and_congr_right fun h => ?_
    rw [hermesBlock_empty lib h]
  | qwen3Coder =>
    simp only [BlockDialect.parseBlock, BlockDialect.BlockReads, qwenBlock_returns, qwenBlock_empty]
  | glm47 =>
    simp only [BlockDialect.parseBlock, BlockDialect.BlockReads, glmBlock_returns]
    exact and_iff_left fun h => absurd h (glmBlock_not_empty lib _ _)

/-- A message of Harmony whose arguments the decoder refuses. -/
def RefusedCall (lib : JsonLib) (m : HarmonyMessage) : Prop := m.isCall = true ∧ Refused lib m

theorem infix_paragraphs {x : List Char} : ∀ {parts : List (List Char)}, x ∈ parts →
    x <:+: paragraphs parts
  | [y], h => by
      rw [List.mem_singleton] at h
      subst h
      simp [paragraphs, List.intercalate]
  | y :: z :: rest, h => by
      have hcons : paragraphs (y :: z :: rest) = y ++ (['\n', '\n'] ++ paragraphs (z :: rest)) := by
        simp [paragraphs, List.intercalate]
      rw [hcons]
      rcases List.mem_cons.mp h with rfl | h
      · exact (List.prefix_append _ _).isInfix
      · exact (infix_paragraphs h).trans
          ((List.suffix_append _ _).trans (List.suffix_append _ _)).isInfix

/-- **What the decoder refuses of a Harmony completion is content.** -/
theorem parseMessages_refused {lib : JsonLib} {messages : List HarmonyMessage}
    {r : HarmonyCompletion} (h : parseMessages lib messages = .ok r) {m : HarmonyMessage}
    (hm : m ∈ messages) (hr : RefusedCall lib m) : m.body <:+: r.content := by
  unfold parseMessages at h
  obtain ⟨pieces, hp, h⟩ := bind_ok h
  cases h
  obtain ⟨piece, hmem, hpiece⟩ := mapM_mem hp m hm
  have hv := piece_refused lib hr.1 hr.2 hpiece
  unfold HarmonyMessage.visible at hv
  split at hv
  · next he =>
    rw [List.isEmpty_iff.mp he]
    exact List.nil_infix
  · refine infix_paragraphs (List.mem_filterMap.mpr ⟨piece, hmem, ?_⟩)
    rw [hv]
    rfl

namespace ToolDialect

variable (lib : JsonLib) (reasoning : ReasoningParser) (decoder : Decoder)

/-- Every call of the JSON library on a text of this dialect raises nothing but what is caught. -/
def Reads (d : ToolDialect) (text : List Char) (tools : Json) : Prop :=
  match d with
  | .block d => ∀ b ∈ blocks (reasoning.strip text), d.BlockReads lib tools (reasoning.strip text) b
  | .llama3Json => LlamaReads lib (stripChars (reasoning.strip text))
  | .gptOss => ∀ m ∈ textMessages text, HarmonyReads lib m

/-- The same of sampled ids. -/
def ReadsTokens (d : ToolDialect) (ids : List Int) (tools : Json) : Prop :=
  match d with
  | .gptOss => ∀ m ∈ tokenMessages decoder ids, HarmonyReads lib m
  | d => d.Reads lib reasoning (decoder.plain ids) tools

/-- What the decoder refuses stays visible: blocks without a call, a whole turn, a body. -/
def Keeps (d : ToolDialect) (text : List Char) (tools : Json) (content : List Char) : Prop :=
  match d with
  | .block d => ∀ b ∈ blocks (reasoning.strip text),
      b.Empty (d.parseBlock lib tools) (reasoning.strip text) →
        b.markup (reasoning.strip text) <:+: content
  | .llama3Json => ∀ e, lib.loads (stripChars (reasoning.strip text)) = .error e →
      content = stripChars (reasoning.strip text)
  | .gptOss => ∀ m ∈ textMessages text, RefusedCall lib m → m.body <:+: content

theorem parseCompletion_returns (d : ToolDialect) (text : List Char) (tools : Json) :
    Returns (d.parseCompletion lib reasoning text tools) ↔ d.Reads lib reasoning text tools := by
  cases d with
  | block d =>
    unfold parseCompletion Reads
    rw [parse_returns]
    exact forall₂_congr fun b _ => d.blockReads_iff lib tools _ b
  | llama3Json => exact llamaParse_returns lib _
  | gptOss =>
    unfold parseCompletion Reads
    rw [returns_bind_left fun _ => returns_pure _]
    exact parseMessages_returns lib _

theorem extractCompletion_returns (d : ToolDialect) (ids : List Int) (tools : Json)
    (completionText : String) :
    Returns (d.extractCompletion lib reasoning decoder ids tools completionText) ↔
      d.ReadsTokens lib reasoning decoder ids tools := by
  cases d with
  | gptOss =>
    unfold extractCompletion ReadsTokens
    simp only
    rw [returns_bind_left fun _ => returns_pure _]
    exact parseMessages_returns lib _
  | block d =>
    unfold extractCompletion ReadsTokens
    simp only
    rw [returns_bind_left fun _ => returns_pure _]
    exact parseCompletion_returns lib reasoning _ _ _
  | llama3Json =>
    unfold extractCompletion ReadsTokens
    simp only
    rw [returns_bind_left fun _ => returns_pure _]
    exact parseCompletion_returns lib reasoning _ _ _

/-- Where a completion is parsed, what was refused is visible. -/
theorem parseCompletion_keeps (d : ToolDialect) {text : List Char} {tools : Json}
    {r : List Char × List ParsedCall} (h : d.parseCompletion lib reasoning text tools = .ok r) :
    d.Keeps lib reasoning text tools r.1 := by
  cases d with
  | block d => exact fun b hb hempty => parse_visible h hb hempty
  | llama3Json =>
    intro e he
    rw [llamaParse_refused lib h he]
  | gptOss =>
    intro m hm hr
    unfold parseCompletion at h
    obtain ⟨r', hr', h⟩ := bind_ok h
    cases h
    exact parseMessages_refused hr' hm hr

end ToolDialect

end RolloutProxy.ToolParser
