/-
  File:      RolloutProxy/TokenStream/Homomorphic.lean
  Subject:   TEMPLATES THAT RENDER MESSAGE BY MESSAGE, and what the parts of `_delta_ids` give
             under one.

  * `Homomorphic c`: every render of the template is a fixed prefix (for an opening render one
    that may depend on tools and effort) and a block for each message; an assistant message with
    body `b` is `gen ++ b ++ ending`.
  * `measured_prefix`: the two probe renders isolate the prefix.
  * `SampledBody`: what the engine may sample behind a prompt for an assistant body.
  * **`deltaIds_spells`**: behind such a completion the delta is the rest of the ending, the
    blocks of the new messages and the generation prompt, without the part that is there already.
-/
import RolloutProxy.TokenStream.Prompt

namespace RolloutProxy

/-- One message of a conversation as the template shows it: a message, or a sampled body. -/
inductive Shown where
  | message (m : Fields)
  | assistant (body : List Int)

/-- A template that renders message by message, for the profile of `c`. -/
structure Homomorphic (c : ManagerConfig) where
  /-- what every render starts with -/
  prefixIds : List Int
  /-- what an opening render with these tools and this effort starts with -/
  openPrefix : Json → Option String → List Int
  block : Fields → List Int
  gen : List Int
  ending : List Int
  generation : c.generationPromptIds = .ok gen
  turnEnd : c.turnEndIds = .ok ending
  renders : ∀ what messages ids, c.tokenizer.render what messages .null none = .ok ids →
    ids = prefixIds ++ messages.flatMap block
  probes : c.probeRenders.isSome = true
  opens : ∀ what messages tools effort ids, c.tokenizer.render what messages tools effort = .ok ids →
    ids = openPrefix tools effort ++ messages.flatMap block

namespace Homomorphic

variable {c : ManagerConfig} (h : Homomorphic c)

/-- The tokens of one shown message. -/
def tokens : Shown → List Int
  | .message m => h.block m
  | .assistant b => h.gen ++ b ++ h.ending

/-- The full template render of a conversation opened with these tools and this effort. -/
def render (tools : Json) (effort : Option String) (conversation : List Shown) : List Int :=
  h.openPrefix tools (c.templateEffort effort) ++ conversation.flatMap h.tokens

theorem flatMap_messages (ms : List Fields) :
    (ms.map Shown.message).flatMap h.tokens = ms.flatMap h.block := by
  rw [List.flatMap_map]
  rfl

theorem render_append (tools : Json) (effort : Option String) (l m : List Shown) :
    h.render tools effort (l ++ m) = h.render tools effort l ++ m.flatMap h.tokens := by
  unfold render
  rw [List.flatMap_append, List.append_assoc]

/-! ## 1. The measured prefix -/

include h in
/-- **The two probes isolate the prefix**, whatever the block of the probe message is. -/
theorem measured_prefix : c.measureImplicitPrefix = some h.prefixIds := by
  unfold ManagerConfig.measureImplicitPrefix
  cases hp : c.probeRenders with
  | none =>
      have := h.probes
      rw [hp] at this
      cases this
  | some renders =>
      obtain ⟨one, two⟩ := renders
      unfold ManagerConfig.probeRenders at hp
      split at hp
      · next one' two' h1 h2 =>
        cases hp
        have e1 := h.renders _ _ _ h1
        have e2 := h.renders _ _ _ h2
        simp only [List.flatMap_cons, List.flatMap_nil, List.append_nil] at e1 e2
        generalize h.block ManagerConfig.prefixProbe = probe at e1 e2
        have hn : (2 * (one.length : Int) - two.length) = h.prefixIds.length := by
          rw [e1, e2]
          simp only [List.length_append]
          omega
        simp only [hn]
        rw [if_neg]
        · rw [Int.toNat_natCast, e1, List.take_left']
          rfl
        · rintro (hneg | hne)
          · omega
          · refine hne ?_
            rw [Int.toNat_natCast, e2, e1, List.drop_left' rfl, List.append_assoc]
      · cases hp

include h in
/-- The delta of new messages is their blocks. -/
theorem strippedDelta_eq {sid : String} {new : List Fields} {delta : List Int}
    (hd : c.strippedDelta sid new = .ok delta) : delta = new.flatMap h.block := by
  obtain ⟨rendered, hr, hd⟩ := bind_ok hd
  have e := h.renders _ _ _ hr
  rw [h.measured_prefix] at hd
  cases hpre : h.prefixIds with
  | nil =>
      rw [hpre] at hd e
      cases hd
      exact e
  | cons t ts =>
      rw [hpre] at hd e
      simp only at hd
      split at hd
      · cases hd
        rw [e, List.drop_left' rfl]
      · cases hd

end Homomorphic

/-! ## 2. The end of a stream -/

variable (c : ManagerConfig)

/-- The stream ends with the tokens of `marker`. -/
def EndsWith (stream : List Int) (what marker : String) : Prop :=
  ∃ ids, c.tokenizer.tokenize what marker = .ok ids ∧ ids ≠ [] ∧ ids <:+ stream

/-- No continuation header stands at the end of the stream. -/
def NoHeader (stream : List Int) (headers : List String) : Prop :=
  ∀ header ∈ headers, ¬EndsWith c stream "continuation header" header

/-- The stream does not end with a complete assistant ending. -/
def NoCompleteEnding (stream : List Int) : Prop :=
  ∀ ending ∈ c.assistantTurnEndings, ¬EndsWith c stream "completed assistant ending" ending

/-- The first continuation header that the stream ends with has these tokens. -/
def HeaderAtEnd (stream ids : List Int) : Prop :=
  ∃ before header after, c.continuationHeaders = before ++ header :: after ∧
    NoHeader c stream before ∧ c.tokenizer.tokenize "continuation header" header = .ok ids ∧
    ids ≠ [] ∧ ids <:+ stream

theorem lastN_matches {stream ids : List Int} :
    (ids ≠ [] ∧ lastN ids.length stream = ids) ↔ (ids ≠ [] ∧ ids <:+ stream) := by
  refine and_congr_right fun hne => ?_
  exact lastN_eq_iff (List.length_pos_of_ne_nil hne) rfl

theorem elideHeader_none {stream delta out : List Int} : ∀ {headers : List String},
    NoHeader c stream headers → c.elideHeader stream delta headers = .ok out → out = delta
  | [], _, h => by cases h; rfl
  | header :: rest, hn, h => by
      obtain ⟨ids, hids, h⟩ := bind_ok h
      split at h
      · next hm =>
        have := lastN_matches.mp hm
        exact absurd ⟨ids, hids, this⟩ (hn header (by simp))
      · exact elideHeader_none (fun x hx => hn x (by simp [hx])) h

theorem elideHeader_some {stream delta out ids : List Int} {header : String} {after : List String} :
    ∀ {before : List String}, NoHeader c stream before →
    c.tokenizer.tokenize "continuation header" header = .ok ids → ids ≠ [] → ids <:+ stream →
    c.elideHeader stream delta (before ++ header :: after) = .ok out → delta = ids ++ out
  | [], _, ht, hne, hs, h => by
      obtain ⟨ids', hids, h⟩ := bind_ok h
      rw [ht] at hids
      cases hids
      rw [if_pos (lastN_matches.mpr ⟨hne, hs⟩)] at h
      split at h
      · next he =>
        cases h
        conv_lhs => rw [← List.take_append_drop ids.length delta]
        rw [he]
      · cases h
  | b :: before, hn, ht, hne, hs, h => by
      obtain ⟨ids', hids, h⟩ := bind_ok h
      split at h
      · next hm => exact absurd ⟨ids', hids, lastN_matches.mp hm⟩ (hn b (by simp))
      · exact elideHeader_some (fun x hx => hn x (by simp [hx])) ht hne hs h

theorem endsComplete_false {stream : List Int} {b : Bool} : ∀ {endings : List String},
    (∀ e ∈ endings, ¬EndsWith c stream "completed assistant ending" e) →
    c.endsComplete stream endings = .ok b → b = false
  | [], _, h => by cases h; rfl
  | e :: rest, hn, h => by
      obtain ⟨ids, hids, h⟩ := bind_ok h
      split at h
      · next hm => exact absurd ⟨ids, hids, lastN_matches.mp hm⟩ (hn e (by simp))
      · exact endsComplete_false (fun x hx => hn x (by simp [hx])) h

/-! ## 3. What follows a sampled body -/

variable {c}

/-- A completion behind `prompt` for the assistant body `body`: the body and the longest part of
    the ending the stream then ends with, or, where the ending is empty, the body and the
    continuation header the engine sampled. -/
structure SampledBody (h : Homomorphic c) (prompt body completion : List Int) : Prop where
  open_ended : NoCompleteEnding c (prompt ++ completion)
  ends : (∃ n, completion = body ++ h.ending.take n ∧
      LongestEnd (prompt ++ completion) h.ending n ∧
      NoHeader c (prompt ++ completion) c.continuationHeaders) ∨
    (h.ending = [] ∧ ∃ ids, completion = body ++ ids ∧ HeaderAtEnd c (prompt ++ completion) ids)

/-- The new messages of a continuation, as the profile's hook prepares them. -/
def ManagerConfig.newShown (c : ManagerConfig) (state : SessionState) (normalized : List Fields) :
    Except PyError (List Fields) := do
  let (echo, new) ← newMessages state.messages normalized
  c.preparedMessages state echo new

/-- **The delta completes the assistant message** and appends the new ones. -/
theorem deltaIds_spells (h : Homomorphic c) {sid : String} {state : SessionState}
    {normalized : List Fields} {prompt body completion delta : List Int}
    (hs : SampledBody h prompt body completion) (hst : state.stream = prompt ++ completion)
    (hd : c.deltaIds sid state normalized = .ok delta) :
    ∃ new, c.newShown state normalized = .ok new ∧
      state.stream ++ delta = prompt ++ body ++ h.ending ++ new.flatMap h.block ++ h.gen := by
  obtain ⟨⟨echo, new⟩, hnew, hd⟩ := bind_ok hd
  obtain ⟨prepared, hprep, hd⟩ := bind_ok hd
  obtain ⟨stripped, hstrip, hd⟩ := bind_ok hd
  obtain ⟨elided, helide, hd⟩ := bind_ok hd
  obtain ⟨gap, hgap, hd⟩ := bind_ok hd
  obtain ⟨gen, hgen, hd⟩ := bind_ok hd
  cases hd
  rw [h.generation] at hgen
  cases hgen
  have hblocks := h.strippedDelta_eq hstrip
  have hgap' : gap = missing state.stream h.ending := by
    obtain ⟨complete, hc, hgap⟩ := bind_ok hgap
    rw [hst] at hc
    rw [endsComplete_false c hs.open_ended hc, if_neg Bool.false_ne_true] at hgap
    obtain ⟨ending, he, hgap⟩ := bind_ok hgap
    rw [h.turnEnd] at he
    cases he
    cases hgap
    rfl
  refine ⟨prepared, ?_, ?_⟩
  · unfold ManagerConfig.newShown
    rw [hnew]
    exact hprep
  · rw [hgap', hst]
    rw [hst] at helide
    rcases hs.ends with ⟨n, hk, hlong, hno⟩ | ⟨hempty, ids, hk, before, header, after, hheaders, hno,
      ht, hne, hsuf⟩
    · have hfull : prompt ++ completion ++ missing (prompt ++ completion) h.ending =
          prompt ++ body ++ h.ending := append_missing hlong (by rw [hk, List.append_assoc])
      rw [elideHeader_none c hno helide, hblocks]
      simp only [← List.append_assoc, hfull]
    · -- the sampled header is the start of the new blocks
      rw [hheaders] at helide
      have hparts := elideHeader_some c hno ht hne hsuf helide
      rw [hempty]
      rw [hblocks] at hparts
      rw [hk, hparts]
      simp [missing, missingFrom]

end RolloutProxy
