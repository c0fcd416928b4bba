/-
  File:      RolloutProxy/ToolParser/Harmony.lean
  Subject:   GPT-OSS COMPLETIONS (tokenization/harmony.py and `HarmonyToolParser`): messages cut at
             structural tokens, and what each of them becomes.

  * A completion is a list of parts, text or structural token. From sampled ids the structural
    ones are told by their id and only the ids between them are decoded; from a serialized text
    they are told by their spelling.
  * The loops over the parts move forward, so the number of parts bounds their turns.
-/
import RolloutProxy.ToolParser.Dialects

namespace RolloutProxy.ToolParser

/-! ## 1. Parts -/

/-- `_MARKERS`. -/
inductive Structural where
  | start
  | stop
  | message
  | channel
  | constrain
  | ret
  | call
  | endOfText
  deriving DecidableEq

namespace Structural

def all : List Structural := [start, stop, message, channel, constrain, ret, call, endOfText]

def tokenId : Structural → Int
  | start => 200006
  | stop => 200007
  | message => 200008
  | channel => 200005
  | constrain => 200003
  | ret => 200002
  | call => 200012
  | endOfText => 199999

def spelling (s : Structural) : List Char :=
  match s with
  | start => "<|start|>".toList
  | stop => "<|end|>".toList
  | message => "<|message|>".toList
  | channel => "<|channel|>".toList
  | constrain => "<|constrain|>".toList
  | ret => "<|return|>".toList
  | call => "<|call|>".toList
  | endOfText => "<|endoftext|>".toList

/-- `token in _MARKERS`. -/
def ofToken (t : Int) : Option Structural := all.find? fun s => s.tokenId = t

/-- A marker's spelling at the head of `l`. -/
def ofText (l : List Char) : Option Structural := all.find? fun s => s.spelling.isPrefixOf l

/-- `_BOUNDARIES`. -/
def isBoundary (s : Structural) : Bool := [start, stop, ret, call, endOfText].contains s

/-- `_ACTION_ENDINGS`. -/
def isAction (s : Structural) : Bool := [ret, call, endOfText].contains s

end Structural

inductive Part where
  | text (t : List Char)
  | structural (s : Structural)
  deriving DecidableEq

/-- `parts` of `assistant_messages_from_tokens`; `run` are the ids since the last marker. -/
def tokenParts (decode : List Int → List Char) (run : List Int) : List Int → List Part
  | [] => if run.isEmpty then [] else [.text (decode run)]
  | t :: ts =>
    match Structural.ofToken t with
    | some s =>
      (if run.isEmpty then [] else [.text (decode run)]) ++ .structural s :: tokenParts decode [] ts
    | none => tokenParts decode (run ++ [t]) ts

/-- `re.split` at the spellings, without empty parts; `run` are the characters since the last
    marker. -/
def textParts : Nat → List Char → List Char → List Part
  | 0, run, _ => if run.isEmpty then [] else [.text run]
  | _ + 1, run, [] => if run.isEmpty then [] else [.text run]
  | fuel + 1, run, c :: l =>
    match Structural.ofText (c :: l) with
    | some s =>
      (if run.isEmpty then [] else [.text run]) ++
        .structural s :: textParts fuel [] ((c :: l).drop s.spelling.length)
    | none => textParts fuel (run ++ [c]) l

/-! ## 2. Messages -/

structure HarmonyMessage where
  channel : Option (List Char)
  recipient : Option (List Char)
  body : List Char
  ending : Option Structural
  deriving DecidableEq

/-- `text.split()`. -/
def words (text : List Char) : List (List Char) :=
  (text.splitOnP isSpace).filter fun w => !w.isEmpty

/-- The loop over a header: its text, its channel and the parts behind `<|message|>`; `none` for
    a header that is not finished. -/
def header : List Part → List Char → Option (List Char) →
    Option (List Char × Option (List Char) × List Part)
  | [], _, _ => none
  | .text t :: rest, text, channel => header rest (text ++ t) channel
  | .structural s :: rest, text, channel =>
    if s = .message then some (text, channel, rest)
    else if s.isBoundary then none
    else
      let channel :=
        match s, rest with
        | .channel, .text t :: _ => (words t).head?
        | _, _ => channel
      header rest (text ++ [' ']) channel

def assistantWord : List Char := "assistant".toList
def recipientHead : List Char := "to=".toList

/-- `_RECIPIENT` searched in the joined fields: a field `to=…` up to an angle bracket. -/
def recipientOf (fields : List (List Char)) : Option (List Char) :=
  fields.findSome? fun f =>
    if recipientHead.isPrefixOf f then
      match (f.drop recipientHead.length).takeWhile fun c => c != '<' && c != '>' with
      | [] => none
      | r => some r
    else none

/-- The body of a message, and the parts from its boundary on. -/
def body : List Part → List Char × List Part
  | [] => ([], [])
  | .text t :: rest => (t ++ (body rest).1, (body rest).2)
  | .structural s :: rest =>
    if s.isBoundary then ([], .structural s :: rest)
    else (s.spelling ++ (body rest).1, (body rest).2)

/-- The loop of `_assistant_messages`. -/
def messagesFrom : Nat → List Part → List HarmonyMessage
  | fuel + 1, .structural .start :: rest =>
    match header rest [] none with
    | none => []
    | some (text, channel, rest) =>
      if (words text).head? = some assistantWord then
        let message := HarmonyMessage.mk channel (recipientOf (words text)) (body rest).1
        match (body rest).2 with
        | .structural s :: after =>
          message (if s = .start then none else some s) ::
            if s.isAction then []
            else messagesFrom fuel (if s = .start then .structural s :: after else after)
        | _ => [message none]
      else []
  | _, _ => []

/-- `_assistant_messages`: the prompt ends in `<|start|>assistant`. -/
def assistantMessages (parts : List Part) : List HarmonyMessage :=
  match parts with
  | .structural .start :: _ => messagesFrom parts.length parts
  | _ => messagesFrom (parts.length + 2) (.structural .start :: .text assistantWord :: parts)

/-! ## 3. What a message becomes -/

/-- `except (ValueError, OverflowError): decoded = None`. -/
def refused {α : Type} : JsonError → Except JsonError (Option α)
  | .recursionError => .error .recursionError
  | _ => .ok none

/-- The arguments of a call, decoded and found finite. -/
def decodeArguments (lib : JsonLib) (arguments : List Char) : Except JsonError (Option Json) :=
  match lib.loads arguments with
  | .error e => refused e
  | .ok v =>
    match lib.dumpsFinite v with
    | .error e => refused e
    | .ok _ => .ok (some v)

/-- What `_parse_messages` appends for a message. -/
inductive Piece where
  | nothing
  | content (t : List Char)
  | reasoning (t : List Char)
  | call (c : ParsedCall)
  deriving DecidableEq

def functionsHead : List Char := "functions.".toList
def analysisWord : List Char := "analysis".toList

namespace HarmonyMessage

variable (lib : JsonLib) (m : HarmonyMessage)

/-- `if message.body: content.append(message.body)`. -/
def visible : Piece := if m.body.isEmpty then .nothing else .content m.body

/-- The message is a finished call of a function. -/
def isCall : Bool :=
  match m.recipient with
  | some r => functionsHead.isPrefixOf r && m.ending == some .call
  | none => false

/-- A message with a recipient. -/
def handoff (recipient : List Char) : Except JsonError Piece :=
  if m.isCall then do
    let name := recipient.drop functionsHead.length
    match ← decodeArguments lib (stripChars m.body) with
    | some (.obj _) =>
      return if name.isEmpty then m.visible else .call ⟨name, stripChars m.body⟩
    | _ => return m.visible
  else .ok m.visible

def piece : Except JsonError Piece :=
  match m.recipient with
  | none =>
    if m.channel = some analysisWord then
      .ok (if (stripChars m.body).isEmpty then .nothing else .reasoning (stripChars m.body))
    else .ok m.visible
  | some recipient => m.handoff lib recipient

end HarmonyMessage

/-- `"\n\n".join(parts)`. -/
def paragraphs (parts : List (List Char)) : List Char := ['\n', '\n'].intercalate parts

/-- `DecodedCompletion` of a Harmony completion. -/
structure HarmonyCompletion where
  content : List Char
  reasoningContent : Option (List Char)
  toolCalls : List ParsedCall

def Piece.contentText : Piece → Option (List Char)
  | .content t => some t
  | _ => none

def Piece.reasoningText : Piece → Option (List Char)
  | .reasoning t => some t
  | _ => none

def Piece.parsedCall : Piece → Option ParsedCall
  | .call c => some c
  | _ => none

/-- `_parse_messages`. -/
def parseMessages (lib : JsonLib) (messages : List HarmonyMessage) :
    Except JsonError HarmonyCompletion := do
  let pieces ← messages.mapM (·.piece lib)
  let reasoning := paragraphs (pieces.filterMap Piece.reasoningText)
  return { content := paragraphs (pieces.filterMap Piece.contentText)
           reasoningContent := if reasoning.isEmpty then none else some reasoning
           toolCalls := pieces.filterMap Piece.parsedCall }

end RolloutProxy.ToolParser
