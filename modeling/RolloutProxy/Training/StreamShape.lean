/-
  File:      RolloutProxy/Training/StreamShape.lean
  Subject:   STREAMS BUILT FROM RECORDED TURNS pass their own validation.

  * `Reads` says what the checks read out of a raw turn; `checkTurn_ok` is the check on such a
    turn, `checkTurns_ok` the loop over many of them.
  * `streamOf` is what `record_to_streams` builds from the turns of one conversation; its tokens,
    mask, logprobs and spans are concatenations over the turns (`streamOf_eq`).
  * **`streamOf_validate`**: a conversation of sound turns that starts with a prompt gives a
    stream that `TrainingStream.validate` accepts.
-/
import RolloutProxy.Training.Streams
import RolloutProxy.Recorder.Dump

namespace RolloutProxy

/-! ## 1. Raw turns -/

/-- What the checks read out of a raw turn. -/
structure Reads (turn : Fields) (agent : Option String) (reset : Bool)
    (prompt completion : List Int) (logprobs : List PyFloat) (sampling : Json) : Prop where
  agent : turn.get "agent_id" = agentJson agent
  prompt : turn.getD "prompt_token_ids" (.arr []) = .arr (prompt.map .int)
  completion : turn.get "completion_token_ids" = .arr (completion.map .int)
  reset : turn.getD "new_conversation" (.bool false) = .bool reset
  logprobs : turn.getD "completion_logprobs" (.arr []) = .arr (logprobs.map .float)
  sampling : turn.get "sampling_params" = sampling

/-- What a trainable turn consists of. -/
structure SoundTurn (prompt completion : List Int) (logprobs : List PyFloat) (sampling : Json) :
    Prop where
  promptNonneg : ∀ n ∈ prompt, 0 ≤ n
  completionNonneg : ∀ n ∈ completion, 0 ≤ n
  finite : ∀ x ∈ logprobs, PyFloat.isFinite x = true
  aligned : logprobs.length = completion.length
  samplingFinite : isSamplingParams sampling = true

theorem isTokenIds_ints {ids : List Int} (h : ∀ n ∈ ids, 0 ≤ n) :
    isTokenIds (.arr (ids.map .int)) = true := by
  simpa [isTokenIds] using h

theorem isFiniteList_floats {l : List PyFloat} (h : ∀ x ∈ l, PyFloat.isFinite x = true) :
    isFiniteList (.arr (l.map .float)) = true := by
  simpa [isFiniteList, finite] using h

@[simp] theorem agentOf_agentJson (agent : Option String) : agentOf (agentJson agent) = some agent := by
  cases agent <;> rfl

@[simp] theorem truthy_ints (ids : List Int) : (Json.arr (ids.map .int)).truthy = !ids.isEmpty := by
  cases ids <;> rfl

/-- The tally behind a turn. -/
def Tally.turn (t : Tally) (agent : Option String) (reset : Bool) (n : Nat) : Tally :=
  (t.start agent reset).add agent n

/-- A sound turn that has a prompt, or a conversation before it, passes. -/
theorem checkTurn_ok {turn : Fields} {agent : Option String} {reset : Bool}
    {prompt completion : List Int} {logprobs : List PyFloat} {sampling : Json}
    (hr : Reads turn agent reset prompt completion logprobs sampling)
    (hs : SoundTurn prompt completion logprobs sampling) (i : Nat) (t : Tally)
    (hp : prompt ≠ [] ∨ (t.start agent reset).length agent ≠ 0) :
    checkTurn none true i t (.obj turn) =
      .ok (t.turn agent reset (prompt.length + completion.length)) := by
  have hlead : (!(!completion.isEmpty && prompt.isEmpty &&
      (t.start agent reset).length agent == 0)) = true := by
    rcases hp with hp | hp
    · cases prompt with
      | nil => exact absurd rfl hp
      | cons a l => simp
    · simp [hp]
  unfold checkTurn
  simp only [hr.agent, agentOf_agentJson, hr.prompt, hr.completion, hr.reset, hr.logprobs,
    hr.sampling, isTokenIds_ints hs.promptNonneg, isTokenIds_ints hs.completionNonneg,
    isFiniteList_floats hs.finite, hs.samplingFinite, guardE, isSelected, truthy_ints, Bool.true_and,
    Bool.not_not, hlead, lengthOf, List.length_map, hs.aligned, bne_self_eq_false, Bool.and_false,
    Bool.not_false, if_true, ok_bind]
  rfl

/-- A conversation that starts, or one that is open, has its length counted from there. -/
theorem Tally.turn_length_self (t : Tally) (agent : Option String) (reset : Bool) (n : Nat) :
    (t.turn agent reset n).length agent =
      (if t.lengths.get? agent = none ∨ reset then 0 else t.length agent) + n := by
  unfold Tally.turn Tally.add Tally.start Tally.length
  split <;> simp

theorem Tally.turn_lengths_ne (t : Tally) {agent a : Option String} (reset : Bool) (n : Nat)
    (h : a ≠ agent) : (t.turn agent reset n).lengths.get? a = t.lengths.get? a := by
  unfold Tally.turn Tally.add Tally.start
  split <;> simp [h]

theorem Tally.turn_lengths_self (t : Tally) (agent : Option String) (reset : Bool) (n : Nat) :
    (t.turn agent reset n).lengths.get? agent ≠ none := by
  unfold Tally.turn Tally.add
  simp

/-! ## 2. What a conversation's turns add up to -/

/-- The mask entries of a turn: prompt tokens 0, sampled tokens 1. -/
def CompletionRecord.mask (t : CompletionRecord) : List Json :=
  List.replicate t.promptTokenIds.length (.int 0) ++
    List.replicate t.completionTokenIds.length (.int 1)

/-- The logprob entries of a turn: placeholders for the prompt, then the recorded ones. -/
def CompletionRecord.probs (t : CompletionRecord) : List Json :=
  List.replicate t.promptTokenIds.length (.float (.finite 0)) ++
    t.completionLogprobs.map .float

/-- The completion span of a turn whose first token is at position `n`. -/
def CompletionRecord.spanAt (t : CompletionRecord) (n : Nat) : TrainingCompletion where
  start := .int ((n + t.promptTokenIds.length : Nat))
  stop := .int ((n + t.promptTokenIds.length + t.completionTokenIds.length : Nat))
  weightVersion := optStr t.weightVersion
  samplingParams := t.samplingJson
  finishReason := optStr t.finishReason

/-- The spans of the turns of one stream, the first turn starting at position `n`. -/
def spansFrom : Nat → List CompletionRecord → List TrainingCompletion
  | _, [] => []
  | n, t :: ts => t.spanAt n :: spansFrom (n + t.tokens.length) ts

/-- What `record_to_streams` builds from the turns of one conversation. -/
def streamOf (s : TrainingStream) (turns : List CompletionRecord) : TrainingStream :=
  turns.foldl (fun s t => extendStream t.modelDump s) s

theorem extendStream_modelDump (t : CompletionRecord) (s : TrainingStream) :
    extendStream t.modelDump s =
      { s with
        tokens := s.tokens ++ t.tokens.map .int
        lossMask := s.lossMask ++ t.mask
        logprobs := s.logprobs ++ t.probs
        completions := s.completions ++ [t.spanAt s.tokens.length] } := by
  have hp : itemsOf (Fields.getD t.modelDump "prompt_token_ids" (.arr [])) =
      t.promptTokenIds.map .int := rfl
  have hc : itemsOf (Fields.get t.modelDump "completion_token_ids") =
      t.completionTokenIds.map .int := rfl
  have hl : itemsOf (Fields.getD t.modelDump "completion_logprobs" (.arr [])) =
      t.completionLogprobs.map .float := rfl
  have hw : Fields.get t.modelDump "weight_version" = optStr t.weightVersion := rfl
  have hs : Fields.get t.modelDump "sampling_params" = t.samplingJson := rfl
  have hf : Fields.get t.modelDump "finish_reason" = optStr t.finishReason := rfl
  unfold extendStream
  simp only [hp, hc, hl, hw, hs, hf, List.length_map, CompletionRecord.tokens, List.map_append,
    List.append_assoc, CompletionRecord.mask, CompletionRecord.probs, CompletionRecord.spanAt]

/-- The stream of a conversation: every field is a concatenation over its turns. -/
theorem streamOf_eq (s : TrainingStream) (turns : List CompletionRecord) :
    streamOf s turns =
      { s with
        tokens := s.tokens ++ (turns.flatMap CompletionRecord.tokens).map .int
        lossMask := s.lossMask ++ turns.flatMap CompletionRecord.mask
        logprobs := s.logprobs ++ turns.flatMap CompletionRecord.probs
        completions := s.completions ++ spansFrom s.tokens.length turns } := by
  induction turns generalizing s with
  | nil => simp [streamOf, spansFrom]
  | cons t ts ih =>
      have hstep : streamOf s (t :: ts) = streamOf (extendStream t.modelDump s) ts := rfl
      rw [hstep, ih, extendStream_modelDump]
      simp [spansFrom, CompletionRecord.tokens]

/-! ## 3. Such a stream is valid -/

/-- A turn the training checks accept. -/
structure CompletionRecord.Trainable (t : CompletionRecord) : Prop where
  turn : SoundTurn t.promptTokenIds t.completionTokenIds t.completionLogprobs t.samplingJson
  weightVersion : ∀ v, t.weightVersion = some v → isBlank v = false
  finishReason : ∀ v, t.finishReason = some v → isBlank v = false

/-- The fields of a stream that its turns determine. -/
structure HasShape (s : TrainingStream) (turns : List CompletionRecord) : Prop where
  tokens : s.tokens = (turns.flatMap CompletionRecord.tokens).map .int
  lossMask : s.lossMask = turns.flatMap CompletionRecord.mask
  logprobs : s.logprobs = turns.flatMap CompletionRecord.probs

theorem tokens_length (t : CompletionRecord) :
    t.tokens.length = t.promptTokenIds.length + t.completionTokenIds.length :=
  List.length_append

theorem mask_length (t : CompletionRecord) : t.mask.length = t.tokens.length := by
  simp [CompletionRecord.mask, CompletionRecord.tokens]

theorem probs_length {t : CompletionRecord} (h : t.Trainable) :
    t.probs.length = t.tokens.length := by
  simp [CompletionRecord.probs, CompletionRecord.tokens, h.turn.aligned]

theorem flatMap_length_congr {α β γ : Type} (f : α → List β) (g : α → List γ) (l : List α)
    (h : ∀ a ∈ l, (f a).length = (g a).length) : (l.flatMap f).length = (l.flatMap g).length := by
  induction l with
  | nil => rfl
  | cons a l ih =>
      simp only [List.flatMap_cons, List.length_append, h a (by simp),
        ih fun b hb => h b (by simp [hb])]

/-- The part of a list between two positions that its pieces give. -/
theorem span_eq (pre post : List Json) {l mid : List Json} {n m : Nat}
    (h : l = pre ++ (mid ++ post)) (hn : n = pre.length) (hm : m = n + mid.length) :
    span l n m = mid := by
  subst hm hn h
  unfold span
  rw [← List.append_assoc, ← List.length_append, List.take_left, List.drop_left]

theorem checkOptionalName_ok {o : Option String} (label : String)
    (h : ∀ v, o = some v → isBlank v = false) : checkOptionalName (optStr o) label = .ok () := by
  cases o with
  | none => rfl
  | some v => simp [checkOptionalName, optStr, Json.isNull, checkName, guardE, h v rfl]

/-- The raw turn the validation rebuilds for a recorded turn of the stream. -/
def rebuiltTurn (agentId : Json) (t : CompletionRecord) : Fields :=
  [("agent_id", agentId), ("prompt_token_ids", .arr (t.promptTokenIds.map .int)),
    ("completion_token_ids", .arr (t.completionTokenIds.map .int)),
    ("completion_logprobs", .arr (t.completionLogprobs.map .float)),
    ("sampling_params", t.samplingJson)]

theorem replicate_isZero (n : Nat) : (List.replicate n (Json.int 0)).all isZero = true := by
  have h : isZero (.int 0) = true := by simp [isZero, Json.pyEq, Json.number, PyFloat.eq]
  simp [h]

theorem replicate_isOne (n : Nat) : (List.replicate n (Json.int 1)).all isOne = true := by
  have h : isOne (.int 1) = true := by simp [isOne, Json.pyEq, Json.number, PyFloat.eq]
  simp [h]

theorem replicate_probs_isZero (n : Nat) :
    (List.replicate n (Json.float (.finite 0))).all isZero = true := by
  have h : isZero (.float (.finite 0)) = true := by
    simp [isZero, Json.pyEq, Json.number, PyFloat.eq]
  simp [h]

/-- **The validation reads the recorded turns back out of the stream.** -/
theorem turnsFrom_ok {s : TrainingStream} (suf : List CompletionRecord) :
    ∀ (pre : List CompletionRecord), HasShape s (pre ++ suf) →
      (∀ t ∈ pre ++ suf, t.Trainable) →
      s.turnsFrom (pre.flatMap CompletionRecord.tokens).length
          (spansFrom (pre.flatMap CompletionRecord.tokens).length suf) =
        .ok (suf.map fun t => .obj (rebuiltTurn s.agentId t)) := by
  induction suf with
  | nil =>
      intro pre h _
      have hl : s.tokens.length = (pre.flatMap CompletionRecord.tokens).length := by
        rw [h.tokens]; simp
      simp [spansFrom, TrainingStream.turnsFrom, hl, guardE]
  | cons t ts ih =>
      intro pre h ht
      have htt : t.Trainable := ht t (by simp)
      have hpre : ∀ u ∈ pre, u.Trainable := fun u hu => ht u (by simp [hu])
      -- the positions of this turn in the three lists
      have hn : (pre.flatMap CompletionRecord.mask).length =
          (pre.flatMap CompletionRecord.tokens).length :=
        flatMap_length_congr _ _ _ fun u _ => mask_length u
      have hq : (pre.flatMap CompletionRecord.probs).length =
          (pre.flatMap CompletionRecord.tokens).length :=
        flatMap_length_congr _ _ _ fun u hu => probs_length (hpre u hu)
      have hlen := htt.turn.aligned
      have hT : s.tokens = (pre.flatMap CompletionRecord.tokens).map .int ++
          (t.promptTokenIds.map .int ++ (t.completionTokenIds.map .int ++
            (ts.flatMap CompletionRecord.tokens).map .int)) := by
        rw [h.tokens]; simp [CompletionRecord.tokens]
      have hM : s.lossMask = pre.flatMap CompletionRecord.mask ++
          (List.replicate t.promptTokenIds.length (.int 0) ++
            (List.replicate t.completionTokenIds.length (.int 1) ++
              ts.flatMap CompletionRecord.mask)) := by
        rw [h.lossMask]; simp [CompletionRecord.mask]
      have hL : s.logprobs = pre.flatMap CompletionRecord.probs ++
          (List.replicate t.promptTokenIds.length (.float (.finite 0)) ++
            (t.completionLogprobs.map .float ++ ts.flatMap CompletionRecord.probs)) := by
        rw [h.logprobs]; simp [CompletionRecord.probs]
      have hrest := ih (pre ++ [t]) (by simpa using h) (by simpa using ht)
      generalize hN : (pre.flatMap CompletionRecord.tokens).length = N at *
      have hN' : ((pre ++ [t]).flatMap CompletionRecord.tokens).length =
          N + t.promptTokenIds.length + t.completionTokenIds.length := by
        simp [CompletionRecord.tokens, ← hN, Nat.add_assoc]
      rw [hN'] at hrest
      have sp : span s.tokens N (N + t.promptTokenIds.length) = t.promptTokenIds.map .int :=
        span_eq _ _ hT (by simp [← hN]) (by simp)
      have sc : span s.tokens (N + t.promptTokenIds.length)
          (N + t.promptTokenIds.length + t.completionTokenIds.length) =
            t.completionTokenIds.map .int :=
        span_eq ((pre.flatMap CompletionRecord.tokens).map .int ++ t.promptTokenIds.map .int)
          ((ts.flatMap CompletionRecord.tokens).map .int) (by rw [hT]; simp) (by simp [← hN])
          (by simp)
      have sm : span s.lossMask N (N + t.promptTokenIds.length) =
          List.replicate t.promptTokenIds.length (.int 0) :=
        span_eq _ _ hM hn.symm (by simp)
      have sm' : span s.lossMask (N + t.promptTokenIds.length)
          (N + t.promptTokenIds.length + t.completionTokenIds.length) =
            List.replicate t.completionTokenIds.length (.int 1) :=
        span_eq (pre.flatMap CompletionRecord.mask ++
            List.replicate t.promptTokenIds.length (.int 0)) (ts.flatMap CompletionRecord.mask)
          (by rw [hM]; simp) (by simp [hn]) (by simp)
      have sl : span s.logprobs N (N + t.promptTokenIds.length) =
          List.replicate t.promptTokenIds.length (.float (.finite 0)) :=
        span_eq _ _ hL hq.symm (by simp)
      have sl' : span s.logprobs (N + t.promptTokenIds.length)
          (N + t.promptTokenIds.length + t.completionTokenIds.length) =
            t.completionLogprobs.map .float :=
        span_eq (pre.flatMap CompletionRecord.probs ++
            List.replicate t.promptTokenIds.length (.float (.finite 0)))
          (ts.flatMap CompletionRecord.probs) (by rw [hL]; simp) (by simp [hq]) (by simp [hlen])
      have hsize : N + t.promptTokenIds.length + t.completionTokenIds.length ≤ s.tokens.length := by
        rw [hT]; simp [hN]; omega
      have hspan : spanOf (t.spanAt N) N s.tokens.length =
          some (N + t.promptTokenIds.length,
            N + t.promptTokenIds.length + t.completionTokenIds.length) := by
        unfold spanOf CompletionRecord.spanAt
        simp only
        rw [if_pos (by omega)]
        rfl
      have hw : checkOptionalName (t.spanAt N).weightVersion "weight_version" = .ok () :=
        checkOptionalName_ok _ htt.weightVersion
      have hf : checkOptionalName (t.spanAt N).finishReason "finish_reason" = .ok () :=
        checkOptionalName_ok _ htt.finishReason
      simp only [spansFrom, TrainingStream.turnsFrom, hspan, sm, sm', sl, replicate_isZero,
        replicate_isOne, replicate_probs_isZero, Bool.and_self, guardE, if_true, ok_bind, hw, hf,
        tokens_length, ← Nat.add_assoc, hrest, TrainingStream.turnOf, sp, sc, sl', List.map_cons,
        rebuiltTurn]
      rfl

/-! ## 4. The loop over such turns -/

section Loop

variable (fields : CompletionRecord → Fields) (agent : CompletionRecord → Option String)
  (reset : CompletionRecord → Bool)

/-- The tally behind a list of turns. -/
def tallyOf (t : Tally) (turns : List CompletionRecord) : Tally :=
  turns.foldl (fun t u => t.turn (agent u) (reset u) u.tokens.length) t

/-- Every turn that starts a conversation has a prompt; `known` are the agents seen before. -/
def Leading : (Option String → Prop) → List CompletionRecord → Prop
  | _, [] => True
  | known, u :: us =>
    ((¬ known (agent u) ∨ reset u = true) → u.promptTokenIds ≠ []) ∧
      Leading (fun a => a = agent u ∨ known a) us

theorem leading_append (known : Option String → Prop) (us : List CompletionRecord)
    (u : CompletionRecord) :
    Leading agent reset known (us ++ [u]) ↔ Leading agent reset known us ∧
      ((¬ (known (agent u) ∨ ∃ v ∈ us, agent v = agent u) ∨ reset u = true) →
        u.promptTokenIds ≠ []) := by
  induction us generalizing known with
  | nil => simp [Leading]
  | cons v vs ih =>
      have hk : (agent u = agent v ∨ known (agent u)) ∨ (∃ w ∈ vs, agent w = agent u) ↔
          known (agent u) ∨ ∃ w ∈ v :: vs, agent w = agent u := by
        constructor
        · rintro ((e | hk) | ⟨w, hw, e⟩)
          · exact .inr ⟨v, by simp, e.symm⟩
          · exact .inl hk
          · exact .inr ⟨w, by simp [hw], e⟩
        · rintro (hk | ⟨w, hw, e⟩)
          · exact .inl (.inr hk)
          · rcases List.mem_cons.mp hw with rfl | hw
            · exact .inl (.inl e.symm)
            · exact .inr ⟨w, hw, e⟩
      simp only [List.cons_append, Leading, ih, hk]
      constructor
      · rintro ⟨h1, h2, h3⟩; exact ⟨⟨h1, h2⟩, h3⟩
      · rintro ⟨⟨h1, h2⟩, h3⟩; exact ⟨h1, h2, h3⟩

/-- Conversations that are open have tokens. -/
def Tally.Positive (t : Tally) : Prop := ∀ a, t.lengths.get? a ≠ none → t.length a ≠ 0

theorem Tally.Positive.turn {t : Tally} (h : t.Positive) {a : Option String} {r : Bool} {n : Nat}
    (hn : (t.lengths.get? a = none ∨ r = true) → n ≠ 0) : (t.turn a r n).Positive := by
  intro b hb
  by_cases e : b = a
  · subst e
    rw [Tally.turn_length_self]
    split
    · next hs => have := hn hs; omega
    · next hs =>
      have := h b (fun e => hs (.inl e))
      omega
  · rw [Tally.turn_lengths_ne t r n e] at hb
    have hb' := h b hb
    unfold Tally.length at hb' ⊢
    rw [Tally.turn_lengths_ne t r n e]
    exact hb'

/-- **The loop accepts the turns** where every conversation starts with a prompt. -/
theorem checkTurns_ok (turns : List CompletionRecord)
    (hr : ∀ u ∈ turns, Reads (fields u) (agent u) (reset u) u.promptTokenIds
      u.completionTokenIds u.completionLogprobs u.samplingJson)
    (ht : ∀ u ∈ turns, u.Trainable) :
    ∀ (i : Nat) (t : Tally) (known : Option String → Prop),
      (∀ a, t.lengths.get? a ≠ none ↔ known a) → t.Positive → Leading agent reset known turns →
      checkTurns none true i t (turns.map fun u => .obj (fields u)) =
        .ok (tallyOf agent reset t turns) := by
  induction turns with
  | nil => intro i t known _ _ _; rfl
  | cons u us ih =>
      intro i t known hk hpos hl
      obtain ⟨hlead, hl⟩ := hl
      have hstart : (t.lengths.get? (agent u) = none ∨ reset u = true) → u.promptTokenIds ≠ [] := by
        rintro (h | h)
        · exact hlead (.inl fun hka => ((hk _).mpr hka) h)
        · exact hlead (.inr h)
      have hcond : u.promptTokenIds ≠ [] ∨ (t.start (agent u) (reset u)).length (agent u) ≠ 0 := by
        by_cases hs : t.lengths.get? (agent u) = none ∨ reset u = true
        · exact .inl (hstart hs)
        · refine .inr ?_
          unfold Tally.start
          rw [if_neg hs]
          exact hpos _ fun e => hs (.inl e)
      have hstep := checkTurn_ok (hr u (by simp)) (ht u (by simp)).turn i t hcond
      rw [← tokens_length] at hstep
      simp only [List.map_cons, checkTurns, hstep, ok_bind]
      refine ih (fun v hv => hr v (by simp [hv])) (fun v hv => ht v (by simp [hv])) (i + 1) _
        (fun a => a = agent u ∨ known a) (fun a => ?_) (hpos.turn fun h => ?_) hl
      · by_cases e : a = agent u
        · simp [e, Tally.turn_lengths_self]
        · rw [Tally.turn_lengths_ne t _ _ e, hk]
          simp [e]
      · have := hstart h
        rw [tokens_length]
        have := List.length_pos_iff.mpr this
        omega

/-- Turns without captures pass where each of them does. -/
theorem validateTurns_ok {turns : List CompletionRecord}
    (hr : ∀ u ∈ turns, Reads (fields u) (agent u) (reset u) u.promptTokenIds
      u.completionTokenIds u.completionLogprobs u.samplingJson)
    (ht : ∀ u ∈ turns, u.Trainable) (hl : Leading agent reset (fun _ => False) turns) :
    validateTurns none true false (turns.map fun u => .obj (fields u)) [] = .ok () := by
  have hloop := checkTurns_ok fields agent reset turns hr ht 0 .empty (fun _ => False)
    (fun a => by simp [Tally.empty]) (fun a h => absurd rfl h) hl
  simp only [validateTurns, hloop, ok_bind]
  rfl

/-- A record without routing blobs passes where its turns do. -/
theorem validateRecordStructure_ok {record : Fields} {turns : List CompletionRecord}
    (hturns : record.get "turns" = .arr (turns.map fun u => .obj (fields u)))
    (hblobs : record.getD "routed_experts" (.obj []) = .obj [])
    (hr : ∀ u ∈ turns, Reads (fields u) (agent u) (reset u) u.promptTokenIds
      u.completionTokenIds u.completionLogprobs u.samplingJson)
    (ht : ∀ u ∈ turns, u.Trainable) (hl : Leading agent reset (fun _ => False) turns) :
    validateRecordStructure none true false (.obj record) = .ok () := by
  have hloop := validateTurns_ok fields agent reset hr ht hl
  simp only [validateRecordStructure, hturns, hblobs]
  exact hloop

end Loop

/-! ## 5. The validation of a built stream -/

theorem reads_rebuiltTurn (a : Option String) (t : CompletionRecord) :
    Reads (rebuiltTurn (agentJson a) t) a false t.promptTokenIds t.completionTokenIds
      t.completionLogprobs t.samplingJson := ⟨rfl, rfl, rfl, rfl, rfl, rfl⟩

theorem reads_modelDump (t : CompletionRecord) :
    Reads t.modelDump t.agentId t.newConversation t.promptTokenIds t.completionTokenIds
      t.completionLogprobs t.samplingJson := by
  refine ⟨?_, rfl, rfl, rfl, rfl, rfl⟩
  cases h : t.agentId <;> simp [CompletionRecord.modelDump, Fields.get, h, optStr, agentJson]

/-- The turns of one agent: only the first needs a prompt. -/
theorem leading_const (a : Option String) {t : CompletionRecord} {ts : List CompletionRecord}
    (h : t.promptTokenIds ≠ []) :
    Leading (fun _ => a) (fun _ => false) (fun _ => False) (t :: ts) := by
  have hrest : ∀ (known : Option String → Prop) (l : List CompletionRecord), known a →
      Leading (fun _ => a) (fun _ => false) known l := by
    intro known l
    induction l generalizing known with
    | nil => intro _; trivial
    | cons u us ih => intro hk; exact ⟨by simp [hk], ih _ (.inr hk)⟩
  exact ⟨fun _ => h, hrest _ ts (.inl rfl)⟩

theorem mask_isMask (turns : List CompletionRecord) :
    (turns.flatMap CompletionRecord.mask).all isMask = true := by
  simp only [List.all_eq_true, List.mem_flatMap]
  rintro x ⟨t, _, hx⟩
  simp only [CompletionRecord.mask, List.mem_append, List.mem_replicate] at hx
  rcases hx with ⟨_, rfl⟩ | ⟨_, rfl⟩ <;> rfl

theorem probs_finite {turns : List CompletionRecord} (ht : ∀ t ∈ turns, t.Trainable) :
    (turns.flatMap CompletionRecord.probs).all finite = true := by
  simp only [List.all_eq_true, List.mem_flatMap]
  rintro x ⟨t, hmem, hx⟩
  simp only [CompletionRecord.probs, List.mem_append, List.mem_replicate, List.mem_map] at hx
  rcases hx with ⟨_, rfl⟩ | ⟨y, hy, rfl⟩
  · rfl
  · exact (ht t hmem).turn.finite y hy

/-- **A conversation of sound turns that starts with a prompt gives a valid stream.** -/
theorem streamOf_validate {sid role : String} {a : Option String} (k : Nat)
    {t : CompletionRecord} {ts : List CompletionRecord} (hsid : isBlank sid = false)
    (ha : ∀ v, a = some v → isBlank v = false) (hrole : isBlank role = false)
    (hp : t.promptTokenIds ≠ []) (ht : ∀ u ∈ t :: ts, u.Trainable) :
    (streamOf (openStream (.str sid) a role k) (t :: ts)).validate false = .ok () := by
  have hagent : agentJson a = optStr a := by cases a <;> rfl
  have hname : checkOptionalName (agentJson a) "agent_id" = .ok () := by
    rw [hagent]; exact checkOptionalName_ok _ ha
  rw [streamOf_eq]
  generalize hs : TrainingStream.mk _ _ _ _ _ _ _ _ _ = s
  have hshape : HasShape s (t :: ts) := by
    subst hs
    exact ⟨by simp [openStream], by simp [openStream], by simp [openStream]⟩
  have hsessionId : s.sessionId = .str sid := by subst hs; rfl
  have hagentId : s.agentId = agentJson a := by subst hs; rfl
  have hroleJ : s.role = .str role := by subst hs; rfl
  have hseg : s.segmentIndex = .int k := by subst hs; rfl
  have hcomp : s.completions = spansFrom 0 (t :: ts) := by subst hs; simp [openStream]
  have hblob : s.routedExperts = .null := by subst hs; rfl
  have hturns := turnsFrom_ok (t :: ts) [] hshape ht
  have hlen1 : s.tokens.length = s.lossMask.length := by
    rw [hshape.tokens, hshape.lossMask, List.length_map]
    exact (flatMap_length_congr _ _ _ fun u _ => mask_length u).symm
  have hlen2 : s.lossMask.length = s.logprobs.length := by
    rw [hshape.lossMask, hshape.logprobs]
    exact flatMap_length_congr _ _ _ fun u hu => by rw [mask_length, probs_length (ht u hu)]
  have hcaptures : s.captures = [] := by
    unfold TrainingStream.captures
    rw [hblob]
  have hrec : validateTurns none true false
      ((t :: ts).map fun u => .obj (rebuiltTurn (agentJson a) u)) s.captures = .ok () := by
    rw [hcaptures]
    exact validateTurns_ok (rebuiltTurn (agentJson a)) (fun _ => a) (fun _ => false)
      (fun u _ => reads_rebuiltTurn a u) ht (leading_const a hp)
  have halign : (s.tokens.length == s.lossMask.length &&
      s.lossMask.length == s.logprobs.length) = true := by simp [hlen1, hlen2]
  have hmask : s.lossMask.all isMask = true := by rw [hshape.lossMask]; exact mask_isMask _
  have hprobs : s.logprobs.all finite = true := by rw [hshape.logprobs]; exact probs_finite ht
  have hk : (decide ((0 : Int) ≤ (k : Int))) = true := by simp
  simp only [List.flatMap_nil, List.length_nil, ← hcomp, hagentId] at hturns
  unfold TrainingStream.validate
  simp only [hsessionId, hagentId, hroleJ, hseg, hname, checkName, hsid, hrole, guardE, hk,
    Bool.not_false, if_true, ok_bind, halign, hmask, hprobs, hturns, hblob, Json.isNull,
    Bool.not_true, Bool.or_false, hrec]

end RolloutProxy
