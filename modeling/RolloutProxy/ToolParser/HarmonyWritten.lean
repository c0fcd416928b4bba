/-
  File:      RolloutProxy/ToolParser/HarmonyWritten.lean
  Subject:   HARMONY COMPLETIONS AS THEY ARE WRITTEN, token by token, and the messages that are read
             from them.

  * A token list is a list of pieces, markers and maximal runs of text tokens between them; its
    parts are these pieces, decoded (`tokenParts_pieces`).
  * A written message is a header with its channel and recipient, a body of any pieces that are no
    boundary, and an ending; `messagesFrom_written` reads a list of them back.
-/
import RolloutProxy.ToolParser.Completion

namespace RolloutProxy.ToolParser

/-! ## 1. Pieces -/

/-- A run of text tokens, or a marker. -/
inductive TokenPiece where
  | run (ids : List Int)
  | marker (s : Structural)

namespace TokenPiece

def tokens : TokenPiece → List Int
  | run ids => ids
  | marker s => [s.tokenId]

/-- The part that is read from a piece. -/
def part (decode : List Int → List Char) : TokenPiece → Part
  | run ids => .text (decode ids)
  | marker s => .structural s

/-- What a piece of a body stands for. -/
def text (decode : List Int → List Char) : TokenPiece → List Char
  | run ids => decode ids
  | marker s => s.spelling

end TokenPiece

/-- A run of text tokens. -/
structure TextRun (ids : List Int) : Prop where
  spelled : ids ≠ []
  unmarked : ∀ t ∈ ids, Structural.ofToken t = none

/-- The runs of a list are maximal: no two of them meet. -/
def MaximalRuns : List TokenPiece → Prop
  | [] => True
  | .marker _ :: rest => MaximalRuns rest
  | [.run ids] => TextRun ids
  | .run ids :: .marker s :: rest => TextRun ids ∧ MaximalRuns (.marker s :: rest)
  | .run _ :: .run _ :: _ => False

theorem ofToken_tokenId (s : Structural) : Structural.ofToken s.tokenId = some s := by
  cases s <;> decide

section Parts

variable {decode : List Int → List Char}

theorem tokenParts_run {ids : List Int} (h : ∀ t ∈ ids, Structural.ofToken t = none)
    (run rest : List Int) :
    tokenParts decode run (ids ++ rest) = tokenParts decode (run ++ ids) rest := by
  induction ids generalizing run with
  | nil => rw [List.nil_append, List.append_nil]
  | cons t ids ih =>
    obtain ⟨ht, hids⟩ := List.forall_mem_cons.mp h
    rw [List.cons_append, tokenParts, ht]
    simp only
    rw [ih hids, List.append_assoc]
    rfl

theorem tokenParts_marker (run : List Int) (s : Structural) (rest : List Int) :
    tokenParts decode run (s.tokenId :: rest) =
      (if run.isEmpty then [] else [.text (decode run)]) ++
        .structural s :: tokenParts decode [] rest := by
  rw [tokenParts, ofToken_tokenId]

/-- **The parts of a token list are its pieces.** -/
theorem tokenParts_pieces : ∀ {pieces : List TokenPiece}, MaximalRuns pieces →
    tokenParts decode [] (pieces.flatMap TokenPiece.tokens) = pieces.map (TokenPiece.part decode)
  | [], _ => rfl
  | .marker s :: rest, h => by
      have hrest : tokenParts decode [] (rest.flatMap TokenPiece.tokens) =
          rest.map (TokenPiece.part decode) := tokenParts_pieces h
      show tokenParts decode [] (s.tokenId :: rest.flatMap TokenPiece.tokens) = _
      rw [tokenParts_marker, hrest]
      rfl
  | [.run ids], h => by
      have hne : ids.isEmpty = false := List.isEmpty_eq_false_iff.mpr h.spelled
      show tokenParts decode [] (ids ++ []) = _
      rw [tokenParts_run h.unmarked, List.nil_append, tokenParts, hne]
      rfl
  | .run ids :: .marker s :: rest, h => by
      have hne : ids.isEmpty = false := List.isEmpty_eq_false_iff.mpr h.1.spelled
      show tokenParts decode [] (ids ++ s.tokenId :: rest.flatMap TokenPiece.tokens) = _
      have hrest : tokenParts decode [] (rest.flatMap TokenPiece.tokens) =
          rest.map (TokenPiece.part decode) := tokenParts_pieces h.2
      rw [tokenParts_run h.1.unmarked, List.nil_append, tokenParts_marker, hne, hrest]
      rfl

/-- A marker keeps the runs around it apart. -/
theorem maximalRuns_marker {s : Structural} {rest : List TokenPiece} (hrest : MaximalRuns rest) :
    ∀ front : List TokenPiece, MaximalRuns front → MaximalRuns (front ++ .marker s :: rest)
  | [], _ => hrest
  | .marker _ :: front, h => maximalRuns_marker hrest front h
  | [.run _], h => ⟨h, hrest⟩
  | .run _ :: .marker s' :: front, h => ⟨h.1, maximalRuns_marker hrest (.marker s' :: front) h.2⟩

end Parts

/-! ## 2. Written messages -/

/-- A message with its ending: `<|end|>` or the next `<|start|>`, an ending of the action, or
    the end of the tokens. -/
structure WrittenMessage where
  channel : List Char
  recipient : Option (List Char)
  /-- The recipient stands in front of the channel. -/
  early : Bool
  /-- What is written between `<|start|>` and `<|channel|>`. -/
  headIds : List Int
  /-- What is written between `<|channel|>` and `<|message|>`. -/
  channelIds : List Int
  body : List TokenPiece
  ending : Option Structural

namespace WrittenMessage

variable (m : WrittenMessage)

/-- ` to=` and the recipient. -/
def addressed : List Char :=
  match m.recipient with
  | some r => ' ' :: (recipientHead ++ r)
  | none => []

/-- What the header says in front of the channel, behind the role. -/
def frontText : List Char := if m.early then m.addressed else []

def channelText : List Char := m.channel ++ if m.early then [] else m.addressed

/-- The pieces of a message behind its `<|start|>`. -/
def pieces : List TokenPiece :=
  (if m.headIds.isEmpty then [] else [.run m.headIds]) ++
    .marker .channel :: .run m.channelIds :: .marker .message :: m.body ++
      (m.ending.map TokenPiece.marker).toList

/-- The message that should be read. -/
def message (decode : List Int → List Char) : HarmonyMessage where
  channel := some m.channel
  recipient := m.recipient
  body := m.body.flatMap (TokenPiece.text decode)
  ending := m.ending

end WrittenMessage

/-- A word, as `str.split` knows it. -/
structure Word (w : List Char) : Prop where
  spelled : w ≠ []
  word : ∀ ch ∈ w, isSpace ch = false

/-- A message that is spelled by its tokens; `role` is what the header text in front of the
    channel starts with. -/
structure WrittenMessage.Spelled (decode : List Int → List Char) (role : List Char)
    (m : WrittenMessage) : Prop where
  channel : Word m.channel
  plain : ¬ recipientHead <+: m.channel
  recipient : ∀ r, m.recipient = some r → Word r ∧ '<' ∉ r ∧ '>' ∉ r
  head : if role ++ m.frontText = [] then m.headIds = []
    else TextRun m.headIds ∧ decode m.headIds = role ++ m.frontText
  channelRun : TextRun m.channelIds ∧ decode m.channelIds = m.channelText
  bodyRuns : MaximalRuns m.body
  bodyMarkers : ∀ s, TokenPiece.marker s ∈ m.body → s.isBoundary = false

/-- A completion: messages, and whether the first is written with its `<|start|>` and role. -/
structure WrittenCompletion where
  lead : Bool
  messages : List WrittenMessage

/-- Every message but the last ends with `<|end|>` or the next `<|start|>`, the last one with the
    action or the tokens. -/
def Endings : List WrittenMessage → Prop
  | [] => False
  | [m] => ∀ s, m.ending = some s → s.isAction = true
  | m :: rest => (∀ s, m.ending = some s → s = .stop) ∧ Endings rest

namespace WrittenCompletion

variable (c : WrittenCompletion)

/-- Every message behind its `<|start|>`, which the first can be written without. -/
def pieces : List TokenPiece :=
  match c.messages with
  | [] => []
  | m :: rest => (if c.lead then [TokenPiece.marker .start] else []) ++ m.pieces ++
      rest.flatMap fun m => .marker .start :: m.pieces

def tokens : List Int := c.pieces.flatMap TokenPiece.tokens

/-- The messages are spelled; the prompt writes the role of a first one without `<|start|>`. -/
structure Spelled (decode : List Int → List Char) : Prop where
  first : ∀ m rest, c.messages = m :: rest →
    m.Spelled decode (if c.lead then assistantWord else []) ∧
      ∀ m' ∈ rest, m'.Spelled decode assistantWord
  endings : Endings c.messages

end WrittenCompletion

/-! ## 3. Headers -/

/-- Words that are joined by single spaces. -/
theorem words_cons {w : List Char} (h : Word w) (l : List Char) :
    words (w ++ ' ' :: l) = w :: words l := by
  have hne : w.isEmpty = false := List.isEmpty_eq_false_iff.mpr h.spelled
  unfold words
  rw [List.splitOnP_append_cons_of_forall_mem h.word ' ' (by decide) l, List.filter_cons, hne]
  rfl

theorem words_single {w : List Char} (h : Word w) : words w = [w] := by
  have hne : w.isEmpty = false := List.isEmpty_eq_false_iff.mpr h.spelled
  unfold words
  rw [List.splitOnP_eq_singleton h.word, List.filter_cons, hne]
  rfl

theorem assistantWord_word : Word assistantWord := ⟨by decide, unspaced_of_all (by decide)⟩

/-- `to=` and a recipient is a word. -/
theorem Word.addressed {r : List Char} (h : Word r) : Word (recipientHead ++ r) := by
  refine ⟨List.append_ne_nil_of_right_ne_nil _ h.spelled, fun ch hch => ?_⟩
  rcases List.mem_append.mp hch with hch | hch
  · exact unspaced_of_all (by decide) ch hch
  · exact h.word ch hch

section Fields

variable {f r : List Char} {fields : List (List Char)}

theorem recipientOf_plain (h : ¬ recipientHead <+: f) :
    recipientOf (f :: fields) = recipientOf fields := by
  unfold recipientOf
  rw [List.findSome?_cons, if_neg (fun hp => h (List.isPrefixOf_iff_prefix.mp hp))]

theorem recipientOf_addressed (hr : Word r) (hopen : '<' ∉ r) (hclose : '>' ∉ r) :
    recipientOf ((recipientHead ++ r) :: fields) = some r := by
  have hwhole : (r.takeWhile fun c => c != '<' && c != '>') = r :=
    List.takeWhile_eq_self_iff.mpr fun c hc => by
      have h₁ : c ≠ '<' := fun he => hopen (he ▸ hc)
      have h₂ : c ≠ '>' := fun he => hclose (he ▸ hc)
      simp [h₁, h₂]
  obtain ⟨c, r', rfl⟩ := List.exists_cons_of_ne_nil hr.spelled
  unfold recipientOf
  rw [List.findSome?_cons, if_pos (List.isPrefixOf_iff_prefix.mpr (List.prefix_append _ _)),
    List.drop_left, hwhole]

end Fields

section Header

variable {decode : List Int → List Char} {m : WrittenMessage} {role : List Char}

/-- The words of a header. -/
def WrittenMessage.fields (m : WrittenMessage) : List (List Char) :=
  let addressed := (m.recipient.map (recipientHead ++ ·)).toList
  assistantWord :: (if m.early then addressed else []) ++ m.channel ::
    (if m.early then [] else addressed)

/-- **The words of a header** are its role, its channel and its recipient. -/
theorem WrittenMessage.Spelled.fields (h : m.Spelled decode role) :
    words (assistantWord ++ m.frontText ++ ' ' :: m.channelText) = m.fields ∧
      (words m.channelText).head? = some m.channel := by
  have hrole := assistantWord_word
  unfold WrittenMessage.fields WrittenMessage.frontText WrittenMessage.channelText
    WrittenMessage.addressed
  cases hr : m.recipient with
  | none =>
    simp only [ite_self, List.append_nil, Option.map_none, Option.toList_none]
    rw [words_cons hrole, words_single h.channel]
    exact ⟨rfl, rfl⟩
  | some r =>
    have hto := (h.recipient r hr).1.addressed
    cases m.early with
    | true =>
      simp only [if_true, List.append_nil, Option.map_some, Option.toList_some]
      rw [List.append_assoc, List.cons_append, words_cons hrole, words_cons hto,
        words_single h.channel]
      exact ⟨rfl, rfl⟩
    | false =>
      simp only [Bool.false_eq_true, if_false, List.append_nil, Option.map_some,
        Option.toList_some]
      rw [words_cons hrole, words_cons h.channel, words_single hto]
      exact ⟨rfl, rfl⟩

/-- The recipient is found in front of the channel or behind it. -/
theorem WrittenMessage.Spelled.recipientOf_fields (h : m.Spelled decode role) :
    recipientOf m.fields = m.recipient := by
  have hrole : ¬ recipientHead <+: assistantWord := by decide
  unfold WrittenMessage.fields
  cases hr : m.recipient with
  | none =>
    simp only [ite_self, Option.map_none, Option.toList_none]
    show recipientOf (assistantWord :: m.channel :: []) = none
    rw [recipientOf_plain hrole, recipientOf_plain h.plain]
    rfl
  | some r =>
    obtain ⟨hword, hopen, hclose⟩ := h.recipient r hr
    cases m.early with
    | true =>
      show recipientOf (assistantWord :: (recipientHead ++ r) :: [m.channel]) = some r
      rw [recipientOf_plain hrole, recipientOf_addressed hword hopen hclose]
    | false =>
      show recipientOf (assistantWord :: m.channel :: [recipientHead ++ r]) = some r
      rw [recipientOf_plain hrole, recipientOf_plain h.plain,
        recipientOf_addressed hword hopen hclose]

/-- Text in a header is joined. -/
theorem header_texts (rest : List Part) (channel : Option (List Char)) :
    ∀ (texts : List (List Char)) (text : List Char),
      header (texts.map Part.text ++ rest) text channel =
        header rest (text ++ texts.flatten) channel
  | [], text => by simp
  | t :: texts, text => by
      rw [List.map_cons, List.cons_append, header, header_texts rest channel texts,
        List.flatten_cons, List.append_assoc]

/-- A header up to its `<|message|>`. -/
theorem header_written (texts : List (List Char)) (t : List Char) (rest : List Part) :
    header (texts.map Part.text ++
        .structural .channel :: .text t :: .structural .message :: rest) [] none =
      some (texts.flatten ++ ' ' :: t, (words t).head?, rest) := by
  rw [header_texts, List.nil_append]
  simp only [header, if_neg (show Structural.channel ≠ .message by decide), Structural.isBoundary]
  simp [List.append_assoc]

end Header

/-! ## 4. Bodies -/

/-- What ends a body: nothing, or a boundary. -/
def EndsBody (rest : List Part) : Prop :=
  rest = [] ∨ ∃ s after, rest = .structural s :: after ∧ s.isBoundary = true

/-- **A body is read to its boundary**, whatever its text spells. -/
theorem body_written {decode : List Int → List Char} {rest : List Part} (hrest : EndsBody rest) :
    ∀ {pieces : List TokenPiece}, (∀ s, TokenPiece.marker s ∈ pieces → s.isBoundary = false) →
      body (pieces.map (TokenPiece.part decode) ++ rest) =
        (pieces.flatMap (TokenPiece.text decode), rest)
  | [], _ => by
      rcases hrest with rfl | ⟨s, after, rfl, hs⟩
      · rfl
      · rw [List.map_nil, List.nil_append, body, if_pos hs]
        rfl
  | .run ids :: pieces, h => by
      have hlater : body (pieces.map (TokenPiece.part decode) ++ rest) = _ :=
        body_written hrest fun s hs => h s (List.mem_cons_of_mem _ hs)
      rw [List.map_cons, List.cons_append, TokenPiece.part, body, hlater]
      rfl
  | .marker s :: pieces, h => by
      have hlater : body (pieces.map (TokenPiece.part decode) ++ rest) = _ :=
        body_written hrest fun s hs => h s (List.mem_cons_of_mem _ hs)
      have hs : ¬ s.isBoundary = true := by rw [h s List.mem_cons_self]; exact Bool.false_ne_true
      rw [List.map_cons, List.cons_append, TokenPiece.part, body, if_neg hs, hlater]
      rfl

/-! ## 5. Completions -/

section Completion

variable {decode : List Int → List Char} {m : WrittenMessage} {role : List Char}

/-- The parts of a message behind `<|start|>`, once its header text is known. -/
def WrittenMessage.parts (decode : List Int → List Char) (m : WrittenMessage)
    (texts : List (List Char)) (rest : List Part) : List Part :=
  texts.map Part.text ++ .structural .channel :: .text m.channelText :: .structural .message ::
    (m.body.map (TokenPiece.part decode) ++ rest)

/-- What the header says in front of the channel, where it says anything. -/
def headTexts (text : List Char) : List (List Char) := if text = [] then [] else [text]

theorem headTexts_flatten (text : List Char) : (headTexts text).flatten = text := by
  unfold headTexts
  split
  · next h => rw [h]; rfl
  · exact List.append_nil text

theorem WrittenMessage.Spelled.parts (h : m.Spelled decode role) :
    m.pieces.map (TokenPiece.part decode) =
      m.parts decode (headTexts (role ++ m.frontText)) (m.ending.map Part.structural).toList := by
  have hhead : (if m.headIds.isEmpty then [] else [TokenPiece.run m.headIds]).map
      (TokenPiece.part decode) = (headTexts (role ++ m.frontText)).map Part.text := by
    have hids := h.head
    unfold headTexts
    split at hids
    · next he =>
      rw [if_pos he, hids]
      rfl
    · next he =>
      rw [if_neg he, if_neg (by simpa using hids.1.spelled), ← hids.2]
      rfl
  have hending : (m.ending.map TokenPiece.marker).toList.map (TokenPiece.part decode) =
      (m.ending.map Part.structural).toList := by
    cases m.ending <;> rfl
  unfold pieces WrittenMessage.parts
  simp only [List.map_append, List.map_cons, hhead, hending, TokenPiece.part, h.channelRun.2,
    List.append_assoc, List.cons_append]

/-- The runs of a message are kept apart by its markers. -/
theorem WrittenMessage.Spelled.maximal (h : m.Spelled decode role) : MaximalRuns m.pieces := by
  have hbody : MaximalRuns (m.body ++ (m.ending.map TokenPiece.marker).toList) := by
    cases m.ending with
    | none =>
      show MaximalRuns (m.body ++ [])
      rw [List.append_nil]
      exact h.bodyRuns
    | some s =>
      have hnone : MaximalRuns [] := trivial
      exact maximalRuns_marker hnone _ h.bodyRuns
  have hhead : MaximalRuns (if m.headIds.isEmpty then [] else [TokenPiece.run m.headIds]) := by
    have hids := h.head
    split
    · trivial
    · next hne =>
      split at hids
      · rw [hids] at hne
        exact absurd rfl hne
      · exact hids.1
  unfold pieces
  rw [List.append_assoc, List.cons_append]
  have hbehind : MaximalRuns (.run m.channelIds :: .marker .message ::
      (m.body ++ (m.ending.map TokenPiece.marker).toList)) := ⟨h.channelRun.1, hbody⟩
  exact maximalRuns_marker hbehind _ hhead

/-- **One message is read**, up to its boundary. -/
theorem messagesFrom_step (h : m.Spelled decode role) {texts : List (List Char)}
    (htexts : texts.flatten = assistantWord ++ m.frontText) {rest : List Part}
    (hrest : EndsBody rest) (fuel : Nat) :
    messagesFrom (fuel + 1) (.structural .start :: m.parts decode texts rest) =
      match rest with
      | .structural s :: after =>
        { m.message decode with ending := if s = .start then none else some s } ::
          if s.isAction then []
          else messagesFrom fuel (if s = .start then .structural s :: after else after)
      | _ => [{ m.message decode with ending := none }] := by
  obtain ⟨hwords, hchannel⟩ := h.fields
  have hrole : (words (texts.flatten ++ ' ' :: m.channelText)).head? = some assistantWord := by
    rw [htexts, hwords]
    rfl
  have hrecipient : recipientOf (words (texts.flatten ++ ' ' :: m.channelText)) = m.recipient := by
    rw [htexts, hwords, h.recipientOf_fields]
  rw [messagesFrom, WrittenMessage.parts, header_written]
  simp only [hrole, if_true, hchannel, hrecipient, body_written hrest h.bodyMarkers]
  rcases hrest with rfl | ⟨s, after, rfl, -⟩ <;> rfl

/-- **The messages of a completion are read back**, by induction on them. -/
theorem messagesFrom_written : ∀ {rest : List WrittenMessage} {m : WrittenMessage}
    {role : List Char} {texts : List (List Char)} {fuel : Nat}, m.Spelled decode role →
      (∀ m' ∈ rest, m'.Spelled decode assistantWord) → Endings (m :: rest) →
      texts.flatten = assistantWord ++ m.frontText → rest.length < fuel →
        messagesFrom fuel (.structural .start :: m.parts decode texts
          ((m.ending.map Part.structural).toList ++ (rest.flatMap fun m' =>
            TokenPiece.marker .start :: m'.pieces).map (TokenPiece.part decode))) =
          (m :: rest).map fun m => m.message decode
  | [], m, role, texts, fuel, h, _, hend, htexts, hfuel => by
      obtain ⟨fuel, rfl⟩ : ∃ n, fuel = n + 1 := ⟨fuel - 1, by omega⟩
      cases hm : m.ending with
      | none =>
        show messagesFrom (fuel + 1) (.structural .start :: m.parts decode texts []) = _
        rw [messagesFrom_step h htexts (.inl rfl)]
        rw [List.map_cons, ← hm]
        rfl
      | some s =>
        have haction : s.isAction = true := hend s hm
        obtain ⟨hboundary, hs⟩ : s.isBoundary = true ∧ s ≠ .start := by
          revert haction
          cases s <;> decide
        show messagesFrom (fuel + 1) (.structural .start :: m.parts decode texts [.structural s]) = _
        rw [messagesFrom_step h htexts (.inr ⟨s, [], rfl, hboundary⟩)]
        simp only [haction, if_true, if_neg hs]
        rw [List.map_cons, ← hm]
        rfl
  | m' :: rest, m, role, texts, fuel, h, hrest, hend, htexts, hfuel => by
      obtain ⟨fuel, rfl⟩ : ∃ n, fuel = n + 1 := ⟨fuel - 1, by omega⟩
      obtain ⟨hstop, hends⟩ := hend
      obtain ⟨hm', hrest⟩ := List.forall_mem_cons.mp hrest
      have hparts : ((m' :: rest).flatMap fun m' => TokenPiece.marker .start :: m'.pieces).map
          (TokenPiece.part decode) = .structural .start :: m'.parts decode
            (headTexts (assistantWord ++ m'.frontText)) ((m'.ending.map Part.structural).toList ++
              (rest.flatMap fun m' => TokenPiece.marker .start :: m'.pieces).map
                (TokenPiece.part decode)) := by
        rw [List.flatMap_cons, List.map_append, List.map_cons, hm'.parts]
        simp only [WrittenMessage.parts, TokenPiece.part, List.append_assoc, List.cons_append]
      have hlater := messagesFrom_written hm' hrest hends (headTexts_flatten _)
        (Nat.lt_of_succ_lt_succ hfuel)
      rw [hparts]
      -- the message ends at its own marker, or where the next one starts
      cases hm : m.ending with
      | none =>
        show messagesFrom (fuel + 1) (.structural .start :: m.parts decode texts
          (.structural .start :: _)) = _
        rw [messagesFrom_step h htexts (.inr ⟨.start, _, rfl, by decide⟩)]
        simp only [if_true, if_neg (show ¬ Structural.start.isAction = true by decide), hlater]
        rw [List.map_cons, ← hm]
        rfl
      | some s =>
        obtain rfl := hstop s hm
        show messagesFrom (fuel + 1) (.structural .start :: m.parts decode texts
          (.structural .stop :: .structural .start :: _)) = _
        rw [messagesFrom_step h htexts (.inr ⟨.stop, _, rfl, by decide⟩)]
        simp only [if_neg (show Structural.stop ≠ .start by decide),
          if_neg (show ¬ Structural.stop.isAction = true by decide), hlater]
        rw [List.map_cons, ← hm]
        rfl

/-- Messages behind their `<|start|>` keep what is in front of them apart. -/
theorem maximalRuns_rest : ∀ {rest : List WrittenMessage} {front : List TokenPiece},
    MaximalRuns front → (∀ m' ∈ rest, m'.Spelled decode assistantWord) →
      MaximalRuns (front ++ rest.flatMap fun m' => TokenPiece.marker .start :: m'.pieces)
  | [], front, hfront, _ => by
      rw [List.flatMap_nil, List.append_nil]
      exact hfront
  | m' :: rest, front, hfront, hrest => by
      obtain ⟨hm', hrest⟩ := List.forall_mem_cons.mp hrest
      rw [List.flatMap_cons, List.cons_append]
      exact maximalRuns_marker (maximalRuns_rest hm'.maximal hrest) _ hfront

/-- Every message but the first is written with its `<|start|>`. -/
theorem length_le_started : ∀ rest : List WrittenMessage,
    rest.length ≤ (rest.flatMap fun m' => TokenPiece.marker .start :: m'.pieces).length
  | [] => le_rfl
  | m' :: rest => by
      have hlater := length_le_started rest
      rw [List.flatMap_cons, List.length_append, List.length_cons, List.length_cons]
      omega

/-- **The messages are read from the tokens as they were written.** -/
theorem WrittenCompletion.Spelled.read {decoder : Decoder} {c : WrittenCompletion}
    (h : c.Spelled decoder.raw) :
    tokenMessages decoder c.tokens = c.messages.map fun m => m.message decoder.raw := by
  obtain ⟨hfirst, hend⟩ := h
  obtain ⟨lead, messages⟩ := c
  simp only at hfirst hend ⊢
  cases messages with
  | nil => exact absurd hend id
  | cons m rest =>
    obtain ⟨hm, hrest⟩ := hfirst m rest rfl
    have hbehind : MaximalRuns (m.pieces ++ rest.flatMap fun m' =>
        TokenPiece.marker .start :: m'.pieces) := maximalRuns_rest hm.maximal hrest
    have hparts : (m.pieces ++ rest.flatMap fun m' => TokenPiece.marker .start :: m'.pieces).map
        (TokenPiece.part decoder.raw) = m.parts decoder.raw
          (headTexts ((if lead then assistantWord else []) ++ m.frontText))
          ((m.ending.map Part.structural).toList ++ (rest.flatMap fun m' =>
            TokenPiece.marker .start :: m'.pieces).map (TokenPiece.part decoder.raw)) := by
      rw [List.map_append, hm.parts]
      simp only [WrittenMessage.parts, List.append_assoc, List.cons_append]
    have hlong : rest.length ≤ ((rest.flatMap fun m' => TokenPiece.marker .start :: m'.pieces).map
        (TokenPiece.part decoder.raw)).length := by
      rw [List.length_map]
      exact length_le_started rest
    have hfuel : ∀ texts, rest.length < (Part.structural .start :: m.parts decoder.raw texts
        ((m.ending.map Part.structural).toList ++ (rest.flatMap fun m' =>
          TokenPiece.marker .start :: m'.pieces).map (TokenPiece.part decoder.raw))).length := by
      intro texts
      simp only [WrittenMessage.parts, List.length_cons, List.length_append]
      omega
    unfold tokenMessages WrittenCompletion.tokens WrittenCompletion.pieces
    simp only [List.append_assoc]
    cases lead with
    | true =>
      have hall : MaximalRuns (.marker .start :: (m.pieces ++ rest.flatMap fun m' =>
          TokenPiece.marker .start :: m'.pieces)) := hbehind
      simp only [if_true, List.singleton_append]
      rw [tokenParts_pieces hall, List.map_cons, hparts]
      exact messagesFrom_written hm hrest hend (headTexts_flatten _) (hfuel _)
    | false =>
      simp only [Bool.false_eq_true, if_false, List.nil_append] at hparts ⊢
      rw [tokenParts_pieces hbehind, hparts]
      -- the prompt has written the role
      have hrole : (assistantWord :: headTexts m.frontText).flatten = assistantWord ++ m.frontText := by
        rw [List.flatten_cons, headTexts_flatten]
      have hread := messagesFrom_written hm hrest hend hrole ((hfuel (headTexts m.frontText)).trans
        (Nat.lt_succ_self _))
      rw [← hread]
      by_cases hfront : m.frontText = []
      · simp only [assistantMessages, WrittenMessage.parts, headTexts, if_pos hfront]
        rfl
      · simp only [assistantMessages, WrittenMessage.parts, headTexts, if_neg hfront]
        rfl

end Completion

end RolloutProxy.ToolParser
