/-
  File:      RolloutProxy/TokenStream/Tokenizer.lean
  Subject:   THE TOKENIZER a stream manager is built around, and what the manager reads out of it.

  A tokenizer is code outside this repository, so it is a record of functions: the chat template
  (`apply_chat_template`), plain-text tokenization (`encode`, or the call itself) and `decode`.
  Each may raise. What it returns is any Python value; `asTokenIds` accepts a flat list of ints,
  a mapping that holds one under `input_ids`, or a batch of one conversation.
-/
import RolloutProxy.TokenStream.Messages
import RolloutProxy.Lib.Except

namespace RolloutProxy

/-- How plain-text tokenization fails: a `TypeError` is reported as a missing interface. -/
inductive EncodeError where
  | typeError (text : String)
  | other (text : String)
  deriving DecidableEq

structure Tokenizer where
  /-- `apply_chat_template(messages, tools=…, add_generation_prompt=False, tokenize=True)`, with
      `reasoning_effort=…` where one is given -/
  applyChatTemplate : List Fields → Json → Option String → Except String Json
  /-- `apply_chat_template(messages, add_generation_prompt=False, tokenize=False)` as text -/
  renderText : List Fields → Except String String
  /-- `encode(text, add_special_tokens=False)` -/
  encode : String → Except EncodeError Json
  /-- `decode(ids, skip_special_tokens=False)` -/
  decode : List Int → Except String String

/-! ## 1. `as_token_ids` -/

/-- The loop over the ids. -/
def intIds (what : String) : Nat → List Json → Except TokenStreamError (List Int)
  | _, [] => .ok []
  | i, .int n :: rest => (intIds what (i + 1) rest).map (n :: ·)
  | i, v :: _ => .error (.notTokenId what v.typeName i)

/-- A sequence of ids, or a batch of one. -/
def sequenceIds (what : String) : Json → Except TokenStreamError (List Int)
  | .arr (.arr ids :: rest) =>
    if rest.isEmpty then intIds what 0 ids else .error (.manyConversations what (rest.length + 1))
  | .arr ids => intIds what 0 ids
  | v => .error (.notTokenSequence what v.typeName)

/-- `as_token_ids`: a flat list of ints. -/
def asTokenIds (what : String) : Json → Except TokenStreamError (List Int)
  | .obj fields =>
    if Fields.has fields "input_ids" then sequenceIds what (Fields.get fields "input_ids")
    else .error (.noInputIds what ((fields.map Prod.fst).mergeSort (· ≤ ·)))
  | v => sequenceIds what v

theorem intIds_ints (what : String) : ∀ (i : Nat) (ids : List Int),
    intIds what i (ids.map .int) = .ok ids
  | _, [] => rfl
  | i, n :: ids => by
      simp only [List.map_cons, intIds, intIds_ints what (i + 1) ids, map_ok_eq]

/-- **A flat list of ints is taken as it is.** -/
theorem asTokenIds_ints (what : String) (ids : List Int) :
    asTokenIds what (.arr (ids.map .int)) = .ok ids := by
  cases ids with
  | nil => rfl
  | cons n ids => exact intIds_ints what 0 (n :: ids)

/-! ## 2. Rendering and tokenizing -/

namespace Tokenizer

/-- A rendered conversation as token ids; the template's own exceptions pass through. -/
def render (t : Tokenizer) (what : String) (messages : List Fields) (tools : Json)
    (effort : Option String) : Except PyError (List Int) :=
  match t.applyChatTemplate messages tools effort with
  | .error e => .error (.other e)
  | .ok rendered => (asTokenIds what rendered).mapError .tokenStream

/-- `_tokenize`: plain text, no special tokens added. -/
def tokenize (t : Tokenizer) (what text : String) : Except PyError (List Int) :=
  match t.encode text with
  | .error (.typeError e) => refuse (.cannotTokenize what text e)
  | .error (.other e) => .error (.other e)
  | .ok rendered => (asTokenIds what rendered).mapError .tokenStream

end Tokenizer

end RolloutProxy
