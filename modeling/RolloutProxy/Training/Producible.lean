/-
  File:      RolloutProxy/Training/Producible.lean
  Subject:   WHICH STREAMS ARE VALID: `TrainingStream.validate` (training.py) against the streams
             that `record_to_streams` can build.

  * `ShapedFrom`: the spans behind a cursor, and what must hold inside and between them;
    `validate_shaped` reads a validation so.
  * `WellShaped`: the same for the stream as a whole, position by position.
  * `madeRecord`: a record that converts to a given stream; the placeholder logprobs of its
    prompts are zeros (`cleared`).
  * `validate_iff_producible`: without a capture, valid is shaped, and shaped is produced.
-/
import RolloutProxy.Training.Agreement

namespace RolloutProxy

/-! ## 1. The spans behind a cursor -/

/-- The completion stands for this turn. -/
def TrainingStream.rawTurn (s : TrainingStream) (agent : Option String) (reset : Bool)
    (c : TrainingCompletion) (cursor start stop : Nat) : RawTurn where
  agent := agent
  reset := reset
  prompt := span s.tokens cursor start
  completion := span s.tokens start stop
  logprobs := span s.logprobs start stop
  sampling := c.samplingParams
  weightVersion := c.weightVersion
  finishReason := c.finishReason

/-- What a completion carries besides its span. -/
structure TrainingCompletion.Attested (c : TrainingCompletion) : Prop where
  version : c.weightVersion = .null ∨ ∃ v, c.weightVersion = .str v ∧ isBlank v = false
  reason : c.finishReason = .null ∨ ∃ r, c.finishReason = .str r ∧ isBlank r = false
  sampling : isSamplingParams c.samplingParams = true

/-- What holds of a completion and the prompt in front of it. -/
structure SpanOk (s : TrainingStream) (c : TrainingCompletion) (cursor start stop : Nat) : Prop where
  prompt : (span s.lossMask cursor start).all isZero = true
  sampled : (span s.lossMask start stop).all isOne = true
  placeholders : (span s.logprobs cursor start).all isZero = true
  promptIds : isTokenIds (.arr (span s.tokens cursor start)) = true
  completionIds : isTokenIds (.arr (span s.tokens start stop)) = true
  led : start < stop → 0 < start
  attested : c.Attested

/-- The completions behind the cursor cover the rest of the stream. -/
def ShapedFrom (s : TrainingStream) : Nat → List TrainingCompletion → Prop
  | cursor, [] => cursor = s.tokens.length
  | cursor, c :: rest => ∃ start stop, spanOf c cursor s.tokens.length = some (start, stop) ∧
      SpanOk s c cursor start stop ∧ ShapedFrom s stop rest

section Shaped

variable {s : TrainingStream} {agent : Option String}

theorem readAs_turnOf (ha : agentOf s.agentId = some agent) (c : TrainingCompletion)
    (cursor start stop : Nat) :
    ReadAs (s.turnOf c cursor start stop)
      { s.rawTurn agent false c cursor start stop with weightVersion := .null, finishReason := .null } :=
  ⟨_, rfl, ha, rfl, rfl, rfl, rfl, rfl, rfl, rfl⟩

theorem LongAs.start {cursor : Nat} {t : Tally} (ht : LongAs agent cursor t) :
    (t.start agent false).length agent = cursor := by
  unfold Tally.start Tally.length
  rcases ht with hget | ⟨rfl, hnone⟩
  · rw [if_neg (by simp [hget]), hget]
    rfl
  · rw [if_pos (.inl hnone)]
    simp

/-- A turn needs no prompt behind the first token of its conversation. -/
theorem leads_iff {u : RawTurn} {cursor start stop : Nat} {t : Tally}
    (hp : u.prompt.length = start - cursor) (hc : u.completion.length = stop - start)
    (hle : cursor ≤ start) (ht : (t.start u.agent u.reset).length u.agent = cursor) :
    u.Leads t ↔ (start < stop → 0 < start) := by
  unfold RawTurn.Leads
  rw [ht, ← List.length_pos_iff, ← List.length_pos_iff, hp, hc]
  omega

/-- **The loop over the completions and the checks on their turns.** -/
theorem turns_shaped (hf : Framed s) (ha : agentOf s.agentId = some agent) :
    ∀ {cs : List TrainingCompletion} {cursor : Nat} {t : Tally} {i : Nat},
      LongAs agent cursor t →
        ((∃ turns t', s.turnsFrom cursor cs = .ok turns ∧
          checkTurns none true i t turns = .ok t') ↔ ShapedFrom s cursor cs)
  | [], cursor, t, i, _ => by
      constructor
      · rintro ⟨turns, t', h, -⟩
        obtain ⟨_, hcursor, -⟩ := bind_ok h
        exact beq_iff_eq.mp (guardE_ok.mp hcursor)
      · intro h
        refine ⟨[], t, ?_, rfl⟩
        unfold TrainingStream.turnsFrom
        rw [show cursor = s.tokens.length from h]
        simp [guardE]
  | c :: rest, cursor, t, i, ht => by
      -- what the checks read is what the record has, so each of them gives a part of the shape
      constructor
      · rintro ⟨turns, t', h, hcheck⟩
        unfold TrainingStream.turnsFrom at h
        split at h
        · cases h
        · next start stop hspan =>
          obtain ⟨-, -, hca, hab, hlen⟩ := spanOf_some hspan
          obtain ⟨_, hmask, h⟩ := bind_ok h
          obtain ⟨_, hversion, h⟩ := bind_ok h
          obtain ⟨_, hreason, h⟩ := bind_ok h
          obtain ⟨later, hlater, h⟩ := bind_ok h
          cases h
          rw [guardE_ok, Bool.and_eq_true, Bool.and_eq_true] at hmask
          obtain ⟨t₁, hturn, hcheck⟩ := bind_ok hcheck
          obtain ⟨u, hu, hsound, hleads, rfl⟩ := checkTurn_iff.mp hturn
          obtain ⟨hagent, hreset, hprompt, hcompletion, -, hsampling⟩ := turnOf_read ha ⟨_, rfl, hu⟩
          have hp : u.prompt.length = start - cursor := by rw [hprompt, span_length (by omega)]
          have hc : u.completion.length = stop - start := by rw [hcompletion, span_length hlen]
          -- the turn begins where the agent's tally stands, and ends where the next one begins
          have hlong : (t.start u.agent u.reset).length u.agent = cursor := by
            rw [hagent, hreset]
            exact ht.start
          have hstep := ht.step hagent hreset
          have hsize : cursor + u.tokens.length = stop := by
            unfold RawTurn.tokens
            rw [List.length_append, hp, hc]
            omega
          rw [hsize] at hstep
          refine ⟨start, stop, hspan, ⟨hmask.1.1, hmask.1.2, hmask.2, hprompt ▸ hsound.promptIds,
            hcompletion ▸ hsound.completionIds, (leads_iff hp hc hca hlong).mp hleads,
            checkOptionalName_iff.mp hversion, checkOptionalName_iff.mp hreason,
            hsampling ▸ hsound.sampling⟩, (turns_shaped hf ha hstep).mp ⟨later, t', hlater, hcheck⟩⟩
      · rintro ⟨start, stop, hspan, hok, hrest⟩
        -- and the other way the shape gives the turn that passes them
        obtain ⟨-, -, hca, hab, hlen⟩ := spanOf_some hspan
        obtain ⟨f, hfields, hread⟩ := readAs_turnOf ha c cursor start stop
        generalize hu : ({ s.rawTurn agent false c cursor start stop with
          weightVersion := .null, finishReason := .null } : RawTurn) = u at hread
        have hp : u.prompt.length = start - cursor := by
          rw [← hu]
          exact span_length (by omega)
        have hc : u.completion.length = stop - start := by
          rw [← hu]
          exact span_length hlen
        have hagent : u.agent = agent := by rw [← hu]; rfl
        have hreset : u.reset = false := by rw [← hu]; rfl
        have hprobs : u.logprobs = span s.logprobs start stop := by rw [← hu]; rfl
        have hsound : u.Sound := by
          refine ⟨by rw [← hu]; exact hok.promptIds, by rw [← hu]; exact hok.completionIds, ?_, ?_,
            by rw [← hu]; exact hok.attested.sampling⟩
          · rw [hprobs]
            refine List.all_eq_true.mpr fun x hx => List.all_eq_true.mp hf.finite x ?_
            exact List.mem_of_mem_take (List.mem_of_mem_drop hx)
          · rw [hprobs, hc, span_length (by rw [hf.logprobs]; exact hlen)]
        have hlong : (t.start u.agent u.reset).length u.agent = cursor := by
          rw [hagent, hreset]
          exact ht.start
        have hstep := ht.step hagent hreset
        have hsize : cursor + u.tokens.length = stop := by
          unfold RawTurn.tokens
          rw [List.length_append, hp, hc]
          omega
        rw [hsize] at hstep
        obtain ⟨later, t', hlater, hcheck⟩ := (turns_shaped hf ha (i := i + 1) hstep).mpr hrest
        refine ⟨s.turnOf c cursor start stop :: later, t', ?_, ?_⟩
        · unfold TrainingStream.turnsFrom
          simp only [hspan, hok.prompt, hok.sampled, hok.placeholders, Bool.and_self, guardE,
            if_true, ok_bind, checkOptionalName_iff.mpr hok.attested.version,
            checkOptionalName_iff.mpr hok.attested.reason, hlater]
          rfl
        · unfold checkTurns
          rw [hfields, checkTurn_readFrom hread hsound
            ((leads_iff hp hc hca hlong).mpr hok.led) none true i, ok_bind]
          exact hcheck

/-- **A validation without a capture**: the frame, and the spans. -/
theorem validate_shaped (hb : s.routedExperts = .null) :
    s.validate false = .ok () ↔ Framed s ∧ ShapedFrom s 0 s.completions := by
  have hcaptures : s.captures = [] := by
    unfold TrainingStream.captures
    rw [hb]
  rw [validate_iff, hcaptures, hb]
  refine and_congr_right fun hf => ?_
  obtain ⟨agent, ha⟩ := hf.agent
  rw [← turns_shaped hf ha (t := .empty) (i := 0) (.inr ⟨rfl, rfl⟩)]
  constructor
  · rintro ⟨turns, hturns, h⟩
    obtain ⟨t', hcheck, -⟩ := bind_ok h
    exact ⟨turns, t', hturns, hcheck⟩
  · rintro ⟨turns, t', hturns, hcheck⟩
    refine ⟨turns, hturns, ?_⟩
    unfold validateTurns
    rw [hcheck, ok_bind]
    rfl

end Shaped

/-! ## 2. The turns of a stream -/

section Turns

variable {s : TrainingStream} {agent : Option String}

/-- The turns the completions behind a cursor stand for; the first may start a conversation. -/
def TrainingStream.rawTurns (s : TrainingStream) (agent : Option String) :
    Bool → Nat → List TrainingCompletion → List RawTurn
  | _, _, [] => []
  | reset, cursor, c :: rest =>
    match spanOf c cursor s.tokens.length with
    | none => []
    | some (start, stop) =>
      s.rawTurn agent reset c cursor start stop :: s.rawTurns agent false stop rest

/-- The logprobs with a zero wherever nothing is sampled. -/
def TrainingStream.cleared (s : TrainingStream) : List Json :=
  List.zipWith (fun m p => if isZero m then .float (.finite 0) else p) s.lossMask s.logprobs

theorem rawTurns_mem : ∀ {cs : List TrainingCompletion} {cursor : Nat} {u : RawTurn},
    u ∈ s.rawTurns agent false cursor cs → u.agent = agent ∧ u.reset = false
  | c :: rest, cursor, u, h => by
      unfold TrainingStream.rawTurns at h
      split at h
      · cases h
      · rcases List.mem_cons.mp h with rfl | h
        · exact ⟨rfl, rfl⟩
        · exact rawTurns_mem h

theorem rawTurn_sizes {c : TrainingCompletion} {cursor start stop : Nat} (reset : Bool)
    (hca : cursor ≤ start) (hab : start ≤ stop) (hlen : stop ≤ s.tokens.length) :
    (s.rawTurn agent reset c cursor start stop).prompt.length = start - cursor ∧
      (s.rawTurn agent reset c cursor start stop).completion.length = stop - start ∧
      cursor + (s.rawTurn agent reset c cursor start stop).tokens.length = stop := by
  have hp : (s.rawTurn agent reset c cursor start stop).prompt.length = start - cursor :=
    span_length (by omega)
  have hc : (s.rawTurn agent reset c cursor start stop).completion.length = stop - start :=
    span_length hlen
  refine ⟨hp, hc, ?_⟩
  unfold RawTurn.tokens
  rw [List.length_append, hp, hc]
  omega

/-- **The turns of a shaped stream are accepted**, where its conversation starts or goes on. -/
theorem rawTurns_accepted (hf : Framed s) : ∀ {cs : List TrainingCompletion} {cursor : Nat}
    {reset : Bool} {t : Tally}, ShapedFrom s cursor cs →
      (reset = true ∧ cursor = 0 ∨ reset = false ∧ LongAs agent cursor t) →
        Accepted t (s.rawTurns agent reset cursor cs)
  | [], _, _, _, _, _ => trivial
  | c :: rest, cursor, reset, t, ⟨start, stop, hspan, hok, hrest⟩, ht => by
      obtain ⟨-, -, hca, hab, hlen⟩ := spanOf_some hspan
      obtain ⟨hp, hc, hsize⟩ := @rawTurn_sizes s agent c _ _ _ reset hca hab hlen
      unfold TrainingStream.rawTurns
      simp only [hspan]
      have hlong : (t.start agent reset).length agent = cursor := by
        rcases ht with ⟨rfl, rfl⟩ | ⟨rfl, ht⟩
        · unfold Tally.start Tally.length
          rw [if_pos (.inr rfl)]
          simp
        · exact ht.start
      refine ⟨⟨hok.promptIds, hok.completionIds, ?_, ?_, hok.attested.sampling⟩,
        (leads_iff hp hc hca hlong).mpr hok.led, rawTurns_accepted hf hrest (.inr ⟨rfl, ?_⟩)⟩
      · refine List.all_eq_true.mpr fun x hx => List.all_eq_true.mp hf.finite x ?_
        exact List.mem_of_mem_take (List.mem_of_mem_drop hx)
      · rw [hc]
        exact span_length (by rw [hf.logprobs]; exact hlen)
      · rcases ht with ⟨rfl, rfl⟩ | ⟨rfl, ht⟩
        · rw [Nat.zero_add] at hsize
          refine .inl ((Tally.turn_starts (.inr rfl) agent).1.trans ?_)
          exact (if_pos rfl).trans (congrArg some hsize)
        · have hstep := ht.step (u := s.rawTurn agent false c cursor start stop) rfl rfl
          rwa [hsize] at hstep

theorem take_span {l : List Json} {start stop : Nat} (h : start ≤ stop) :
    l.take start ++ span l start stop = l.take stop := by
  unfold span
  conv_rhs => rw [← List.take_append_drop start (l.take stop)]
  rw [List.take_take, Nat.min_eq_left h]

theorem span_append {l : List Json} {a b c : Nat} (hab : a ≤ b) (hbc : b ≤ c) :
    span l a b ++ span l b c = span l a c := by
  have h := take_span (l := l) (hab.trans hbc)
  rw [← take_span hbc, ← take_span hab, List.append_assoc] at h
  exact (List.append_cancel_left h).symm

theorem mask_zero {m : Json} (h : isMask m = true) (h0 : isZero m = true) : m = .int 0 := by
  cases m with
  | int n =>
    rcases Bool.or_eq_true_iff.mp h with hn | hn
    · rw [beq_iff_eq.mp hn]
    · rw [beq_iff_eq.mp hn] at h0
      exact absurd h0 (by decide)
  | _ => cases h

theorem mask_one {m : Json} (h : isMask m = true) (h1 : isOne m = true) : m = .int 1 := by
  cases m with
  | int n =>
    rcases Bool.or_eq_true_iff.mp h with hn | hn
    · rw [beq_iff_eq.mp hn] at h1
      exact absurd h1 (by decide)
    · rw [beq_iff_eq.mp hn]
  | _ => cases h

theorem span_mem {l : List Json} {x : Json} {start stop : Nat} (h : x ∈ span l start stop) :
    ∃ i, start ≤ i ∧ i < stop ∧ l[i]? = some x := by
  unfold span at h
  obtain ⟨i, hi⟩ := List.mem_iff_getElem?.mp h
  rw [List.getElem?_drop, List.getElem?_take] at hi
  split at hi
  · next hlt => exact ⟨start + i, by omega, hlt, hi⟩
  · cases hi

/-- The masks of a turn are the stream's. -/
theorem rawTurn_mask (hf : Framed s) {c : TrainingCompletion} {cursor start stop : Nat}
    (reset : Bool) (hca : cursor ≤ start) (hab : start ≤ stop) (hlen : stop ≤ s.tokens.length)
    (hok : SpanOk s c cursor start stop) :
    (s.rawTurn agent reset c cursor start stop).mask = span s.lossMask cursor stop := by
  have hmask : ∀ {a b : Nat} {x : Json}, x ∈ span s.lossMask a b → isMask x = true :=
    fun hx => List.all_eq_true.mp hf.masks _ (List.mem_of_mem_take (List.mem_of_mem_drop hx))
  obtain ⟨hp, hc, -⟩ := @rawTurn_sizes s agent c _ _ _ reset hca hab hlen
  unfold RawTurn.mask
  rw [hp, hc, ← span_append hca hab]
  congr 1
  · refine (List.eq_replicate_iff.mpr ⟨span_length (by rw [hf.tokens]; omega), fun x hx => ?_⟩).symm
    exact mask_zero (hmask hx) (List.all_eq_true.mp hok.prompt x hx)
  · refine (List.eq_replicate_iff.mpr ⟨span_length (by rw [hf.tokens]; omega), fun x hx => ?_⟩).symm
    exact mask_one (hmask hx) (List.all_eq_true.mp hok.sampled x hx)

theorem cleared_span (a b : Nat) : span s.cleared a b =
    List.zipWith (fun m p => if isZero m then .float (.finite 0) else p)
      (span s.lossMask a b) (span s.logprobs a b) := by
  unfold span TrainingStream.cleared
  rw [List.take_zipWith, List.drop_zipWith]

/-- The logprobs of a turn are the cleared ones. -/
theorem rawTurn_probs (hf : Framed s) {c : TrainingCompletion} {cursor start stop : Nat}
    (reset : Bool) (hca : cursor ≤ start) (hab : start ≤ stop) (hlen : stop ≤ s.tokens.length)
    (hok : SpanOk s c cursor start stop) :
    (s.rawTurn agent reset c cursor start stop).probs = span s.cleared cursor stop := by
  have hzeros : ∀ {ms ps : List Json}, ms.length = ps.length → ms.all isZero = true →
      List.zipWith (fun m p => if isZero m then Json.float (.finite 0) else p) ms ps =
        List.replicate ms.length (.float (.finite 0)) := by
    intro ms
    induction ms with
    | nil => intro ps _ _; rfl
    | cons m ms ih =>
      intro ps hl h
      cases ps with
      | nil => cases hl
      | cons p ps =>
        rw [List.all_cons, Bool.and_eq_true] at h
        rw [List.zipWith_cons_cons, if_pos h.1, ih (Nat.succ.inj hl) h.2]
        rfl
  have hones : ∀ {ms ps : List Json}, ms.length = ps.length → ms.all isMask = true →
      ms.all isOne = true →
      List.zipWith (fun m p => if isZero m then Json.float (.finite 0) else p) ms ps = ps := by
    intro ms
    induction ms with
    | nil =>
      intro ps hl _ _
      exact (List.eq_nil_of_length_eq_zero hl.symm).symm
    | cons m ms ih =>
      intro ps hl hm h
      cases ps with
      | nil => cases hl
      | cons p ps =>
        rw [List.all_cons, Bool.and_eq_true] at h hm
        have hnz : ¬isZero m = true := by
          rw [mask_one hm.1 h.1]
          decide
        rw [List.zipWith_cons_cons, if_neg hnz, ih (Nat.succ.inj hl) hm.2 h.2]
  obtain ⟨hp, -, -⟩ := @rawTurn_sizes s agent c _ _ _ reset hca hab hlen
  have hmasks : (span s.lossMask start stop).all isMask = true :=
    List.all_eq_true.mpr fun x hx =>
      List.all_eq_true.mp hf.masks x (List.mem_of_mem_take (List.mem_of_mem_drop hx))
  have hm : ∀ {b : Nat}, b ≤ s.tokens.length → b ≤ s.lossMask.length ∧ b ≤ s.logprobs.length :=
    fun hb => ⟨by rw [hf.tokens]; exact hb, by rw [hf.logprobs]; exact hb⟩
  obtain ⟨hsm, hsp⟩ := hm (hab.trans hlen)
  obtain ⟨htm, htp⟩ := hm hlen
  unfold RawTurn.probs
  rw [hp, ← span_append hca hab, cleared_span, cleared_span,
    hzeros (by rw [span_length hsm, span_length hsp]) hok.prompt, span_length hsm,
    hones (by rw [span_length htm, span_length htp]) hmasks hok.sampled]
  rfl

/-- **A stream rebuilt from its turns**: the same, with cleared logprobs. -/
theorem rawTurns_build (hf : Framed s) : ∀ {cs : List TrainingCompletion} {cursor : Nat}
    {reset : Bool} {x : TrainingStream}, ShapedFrom s cursor cs → x.tokens = s.tokens.take cursor →
      x.lossMask = s.lossMask.take cursor → x.logprobs = s.cleared.take cursor →
        (s.rawTurns agent reset cursor cs).foldl (fun x u => u.extend x) x =
          { x with tokens := s.tokens, lossMask := s.lossMask, logprobs := s.cleared,
                   completions := x.completions ++ cs }
  | [], cursor, reset, x, h, ht, hm, hp => by
      have hcursor : cursor = s.tokens.length := h
      have hcl : s.cleared.length = s.tokens.length := by
        unfold TrainingStream.cleared
        rw [List.length_zipWith, hf.tokens, hf.logprobs, Nat.min_self]
      subst hcursor
      rw [List.take_of_length_le le_rfl] at ht
      rw [List.take_of_length_le (by rw [hf.tokens])] at hm
      rw [List.take_of_length_le (by rw [hcl])] at hp
      rw [List.append_nil, ← ht, ← hm, ← hp]
      rfl
  | c :: rest, cursor, reset, x, ⟨start, stop, hspan, hok, hrest⟩, ht, hm, hp => by
      obtain ⟨hstart, hstop, hca, hab, hlen⟩ := spanOf_some hspan
      obtain ⟨hsp, hsc, -⟩ := @rawTurn_sizes s agent c _ _ _ reset hca hab hlen
      unfold TrainingStream.rawTurns
      simp only [hspan, List.foldl_cons]
      have hspanAt : (s.rawTurn agent reset c cursor start stop).spanAt x.tokens.length = c := by
        have h1 : cursor + (start - cursor) = start := by omega
        have h2 : start + (stop - start) = stop := by omega
        unfold RawTurn.spanAt
        rw [ht, List.length_take, Nat.min_eq_left (by omega), hsp, hsc, h1, h2, ← hstart, ← hstop]
        rfl
      rw [rawTurns_build hf hrest]
      · unfold RawTurn.extend
        simp only [hspanAt, List.append_assoc, List.singleton_append]
      · unfold RawTurn.extend RawTurn.tokens
        change x.tokens ++ (span s.tokens cursor start ++ span s.tokens start stop) = _
        rw [ht, span_append hca hab, take_span (hca.trans hab)]
      · unfold RawTurn.extend
        change x.lossMask ++ (s.rawTurn agent reset c cursor start stop).mask = _
        rw [hm, rawTurn_mask hf reset hca hab hlen hok, take_span (hca.trans hab)]
      · unfold RawTurn.extend
        change x.logprobs ++ (s.rawTurn agent reset c cursor start stop).probs = _
        rw [hp, rawTurn_probs hf reset hca hab hlen hok, take_span (hca.trans hab)]

end Turns

/-! ## 3. A record for a stream -/

/-- A turn as a record holds it. -/
def RawTurn.json (u : RawTurn) : Json :=
  .obj [("agent_id", agentJson u.agent), ("new_conversation", .bool u.reset),
    ("prompt_token_ids", .arr u.prompt), ("completion_token_ids", .arr u.completion),
    ("completion_logprobs", .arr u.logprobs), ("sampling_params", u.sampling),
    ("weight_version", u.weightVersion), ("finish_reason", u.finishReason)]

theorem RawTurn.json_read (u : RawTurn) : ReadAs u.json u :=
  ⟨_, rfl, agentOf_agentJson u.agent, rfl, rfl, rfl, rfl, rfl, rfl, rfl⟩

/-- A turn that only starts a conversation. -/
def filler (agent : Option String) : RawTurn := ⟨agent, true, [.int 0], [], [], .null, .null, .null⟩

/-- The record a stream is made of: a conversation for each segment before it, then its turns. -/
def madeTurns (s : TrainingStream) (agent : Option String) (segment : Nat) : List RawTurn :=
  List.replicate segment (filler agent) ++ s.rawTurns agent true 0 s.completions

def madeRecord (s : TrainingStream) (agent : Option String) (segment : Nat) : Json :=
  .obj [("session_id", s.sessionId),
    ("turns", .arr ((madeTurns s agent segment).map RawTurn.json))]

section Made

variable {sid : Json} {roles : Roles} {agent : Option String} {role : String} {us : List RawTurn}
  {t : Tally} {st : StreamsState}

theorem fillers_accepted (h : ∀ t, Accepted t us) :
    ∀ (k : Nat) (t : Tally), Accepted t (List.replicate k (filler agent) ++ us)
  | 0, t => h t
  | k + 1, _ => ⟨⟨rfl, rfl, rfl, rfl, rfl⟩, fun hne => absurd rfl hne, fillers_accepted h k _⟩

theorem fillers_count : ∀ (k : Nat) (t : Tally),
    (tallyTurns t (List.replicate k (filler agent))).count agent = t.count agent + k
  | 0, _ => rfl
  | k + 1, t => by
      have hturn : (t.turn agent true (filler agent).tokens.length).count agent =
          if agent = agent then t.count agent + 1 else t.count agent :=
        (Tally.turn_starts (.inr rfl) agent).2
      rw [if_pos rfl] at hturn
      change (tallyTurns ((filler agent).tally t) (List.replicate k (filler agent))).count agent = _
      rw [fillers_count k]
      change (t.turn agent true (filler agent).tokens.length).count agent + k = _
      rw [hturn]
      omega

/-- **A reset opens a stream**, the agent's first one or one more. -/
theorem reset_adds (h : Follows sid roles [] us t st) {u : RawTurn} (hreset : u.reset = true)
    (hrole : roleOf roles u.agent = some role) :
    Adds sid roles true [] st u
      { streams := st.streams ++ [u.extend (openStream sid u.agent role (t.count u.agent))]
        current := st.current.set u.agent st.streams.length } := by
  cases hl : t.lengths.get? u.agent with
  | none =>
    obtain ⟨hnone, hcount⟩ := h.unknown u.agent hl
    rw [hcount]
    exact .first hrole (by rw [hnone]; rfl)
  | some n =>
    obtain ⟨i, s, hi, hs, -, -, k, hk, hseg⟩ := h.opened u.agent n hl
    have hnext : t.count u.agent = nextSegment s := by
      unfold nextSegment
      rw [hseg, hk]
      rfl
    rw [hnext]
    refine .reset hrole hi hs hreset rfl ?_
    cases u.agent <;> rfl

/-- The fillers open the segments before. -/
theorem fillers_add (hrole : roleOf roles agent = some role) :
    ∀ (k : Nat) {us : List RawTurn} {t : Tally} {st : StreamsState}, Follows sid roles [] us t st →
      ∃ st', AddsTurns sid roles true [] st (List.replicate k (filler agent)) st' ∧
        ∀ x ∈ st'.streams, x ∈ st.streams ∨ ∃ j, x = (filler agent).extend (openStream sid agent role j)
  | 0, _, _, st, _ => ⟨st, rfl, fun _ hx => .inl hx⟩
  | k + 1, _, t, _, h => by
      have hadds := reset_adds h (u := filler agent) rfl hrole
      obtain ⟨st', hst', hall⟩ := fillers_add hrole k (h.step hadds)
      refine ⟨st', ⟨_, hadds, hst'⟩, fun x hx => ?_⟩
      rcases hall x hx with hx | hx
      · rcases List.mem_append.mp hx with hx | hx
        · exact .inl hx
        · exact .inr ⟨t.count agent, List.mem_singleton.mp hx⟩
      · exact .inr hx

/-- **The turns behind the first** extend the stream it opened. -/
theorem extends_last (hrole : roleOf roles agent = some role) {pre : List TrainingStream}
    {current : Dict (Option String) Nat} (hcur : current.get? agent = some pre.length) :
    ∀ {later : List RawTurn} {x : TrainingStream},
      (∀ u ∈ later, u.agent = agent ∧ u.reset = false) →
        AddsTurns sid roles true [] ⟨pre ++ [x], current⟩ later
          ⟨pre ++ [later.foldl (fun x u => u.extend x) x], current⟩
  | [], _, _ => rfl
  | u :: later, x, h => by
      obtain ⟨⟨ha, hreset⟩, hlater⟩ := List.forall_mem_cons.mp h
      refine ⟨_, ?_, extends_last hrole hcur hlater⟩
      have hset : pre ++ [u.extend x] = (pre ++ [x]).set pre.length (u.extend x) := by
        rw [List.set_append_right _ _ le_rfl, Nat.sub_self]
        rfl
      rw [hset]
      rw [← ha] at hrole hcur
      refine .more hrole hcur ?_ hreset
      change (pre ++ [x])[pre.length]? = some x
      rw [List.getElem?_append_right le_rfl, Nat.sub_self]
      rfl

theorem AddsTurns.append {blobs : Fields} {st₁ st₂ : StreamsState} :
    ∀ {us vs : List RawTurn} {st : StreamsState}, AddsTurns sid roles true blobs st us st₁ →
      AddsTurns sid roles true blobs st₁ vs st₂ → AddsTurns sid roles true blobs st (us ++ vs) st₂
  | [], _, _, h, h' => by
      cases h
      exact h'
  | _ :: _, _, _, ⟨_, hu, h⟩, h' => ⟨_, hu, h.append h'⟩

theorem filler_valid {sid : String} (hsid : isBlank sid = false) (hrole : isBlank role = false)
    (hagent : agentJson agent = .null ∨ ∃ a, agentJson agent = .str a ∧ isBlank a = false) (k : Nat) :
    ((filler agent).extend (openStream (.str sid) agent role k)).validate false = .ok () := by
  refine (validate_shaped rfl).mpr ⟨⟨⟨sid, rfl, hsid⟩, hagent, ⟨role, rfl, hrole⟩, ⟨k, rfl⟩, rfl, rfl,
    rfl, rfl⟩, 1, 1, rfl, ⟨rfl, rfl, rfl, rfl, rfl, fun _ => Nat.one_pos, .inl rfl, .inl rfl, rfl⟩,
    rfl⟩

end Made

/-! ## 4. A shaped stream is produced -/

/-- The same stream but for how the zeros of its prompts are written. -/
structure ZerosAside (s s' : TrainingStream) : Prop where
  rest : { s with logprobs := s'.logprobs } = s'
  long : s.logprobs.length = s'.logprobs.length
  zeros : ∀ (i : Nat) (p p' : Json), s.logprobs[i]? = some p → s'.logprobs[i]? = some p' → p = p' ∨
    s.lossMask[i]? = some (.int 0) ∧ (finite p = true ∧ isZero p = true) ∧
      finite p' = true ∧ isZero p' = true

/-- A record and a role map give a list with the stream. -/
def Producible (s : TrainingStream) : Prop :=
  ∃ record roles streams s', recordToStreams record roles true false = .ok streams ∧
    s' ∈ streams ∧ ZerosAside s s'

section Produce

variable {s s' : TrainingStream}

theorem ZerosAside.symm (h : ZerosAside s s') : ZerosAside s' s where
  rest := by rw [← h.rest]
  long := h.long.symm
  zeros := fun i p p' hp hp' => by
    rcases h.zeros i p' p hp' hp with he | ⟨hm, hz, hz'⟩
    · exact .inl he.symm
    · exact .inr ⟨by rw [← h.rest]; exact hm, hz', hz⟩

/-- What the zeros do not change. -/
theorem ZerosAside.prob {s s' : TrainingStream} (h : ZerosAside s s') {i : Nat} {p : Json}
    (hp : s'.logprobs[i]? = some p) : ∃ p', s.logprobs[i]? = some p' ∧
      (finite p' = true → finite p = true) ∧ (isZero p' = true → isZero p = true) := by
  have hlt : i < s.logprobs.length := by
    rw [h.long]
    exact (List.getElem?_eq_some_iff.mp hp).1
  refine ⟨s.logprobs[i], List.getElem?_eq_getElem hlt, ?_⟩
  rcases h.zeros i _ p (List.getElem?_eq_getElem hlt) hp with he | ⟨-, -, hf, hz⟩
  · rw [he]
    exact ⟨id, id⟩
  · exact ⟨fun _ => hf, fun _ => hz⟩

theorem ZerosAside.framed (h : ZerosAside s s') (hf : Framed s) : Framed s' := by
  have hfinite : s'.logprobs.all finite = true := List.all_eq_true.mpr fun p hp => by
    obtain ⟨i, hi⟩ := List.mem_iff_getElem?.mp hp
    obtain ⟨p', hp', hfin, -⟩ := h.prob hi
    exact hfin (List.all_eq_true.mp hf.finite p' (List.mem_of_getElem? hp'))
  have hlong : s'.logprobs.length = s'.tokens.length := by
    rw [← h.long, hf.logprobs, ← h.rest]
  rw [← h.rest] at hfinite hlong ⊢
  exact ⟨hf.sessionId, hf.agentId, hf.role, hf.segmentIndex, hf.tokens, hlong, hf.masks, hfinite⟩

theorem ZerosAside.shaped (h : ZerosAside s s') : ∀ {cs : List TrainingCompletion} {cursor : Nat},
    ShapedFrom s cursor cs → ShapedFrom s' cursor cs
  | [], cursor, hs => by
      rw [← h.rest]
      exact hs
  | c :: rest, cursor, ⟨start, stop, hspan, hok, hrest⟩ => by
      have hplaceholders : (span s'.logprobs cursor start).all isZero = true :=
        List.all_eq_true.mpr fun p hp => by
          obtain ⟨i, hfrom, hto, hi⟩ := span_mem hp
          obtain ⟨p', hp', -, hz⟩ := h.prob hi
          exact hz (List.all_eq_true.mp hok.placeholders p' (mem_span hp' hfrom hto))
      have hlater := h.shaped hrest
      rw [← h.rest] at hplaceholders hlater ⊢
      exact ⟨start, stop, hspan, ⟨hok.prompt, hok.sampled, hplaceholders, hok.promptIds,
        hok.completionIds, hok.led, hok.attested⟩, hlater⟩

theorem ZerosAside.valid (h : ZerosAside s s') (hb : s.routedExperts = .null)
    (hv : s.validate false = .ok ()) : s'.validate false = .ok () := by
  have hb' : s'.routedExperts = .null := by rw [← h.rest]; exact hb
  have hcs : s'.completions = s.completions := by rw [← h.rest]
  obtain ⟨hf, hs⟩ := (validate_shaped hb).mp hv
  refine (validate_shaped hb').mpr ⟨h.framed hf, ?_⟩
  rw [hcs]
  exact h.shaped hs

/-- Where nothing is sampled, the placeholder is zero. -/
theorem ShapedFrom.placeholder (hf : Framed s) : ∀ {cs : List TrainingCompletion} {cursor i : Nat}
    {p : Json}, ShapedFrom s cursor cs → cursor ≤ i → s.lossMask[i]? = some (.int 0) →
      s.logprobs[i]? = some p → isZero p = true
  | [], cursor, i, p, hs, hi, _, hp => by
      have hcursor : cursor = s.tokens.length := hs
      have hlt := (List.getElem?_eq_some_iff.mp hp).1
      rw [hf.logprobs] at hlt
      omega
  | c :: rest, cursor, i, p, ⟨start, stop, hspan, hok, hrest⟩, hi, hm, hp => by
      rcases Nat.lt_or_ge i start with hstart | hstart
      · exact List.all_eq_true.mp hok.placeholders p (mem_span hp hi hstart)
      · rcases Nat.lt_or_ge i stop with hstop | hstop
        · have := List.all_eq_true.mp hok.sampled _ (mem_span hm hstart hstop)
          exact absurd this (by decide)
        · exact hrest.placeholder hf hstop hm hp

theorem cleared_aside (hf : Framed s) (hs : ShapedFrom s 0 s.completions) :
    ZerosAside s { s with logprobs := s.cleared } where
  rest := rfl
  long := by
    change s.logprobs.length = (List.zipWith _ s.lossMask s.logprobs).length
    rw [List.length_zipWith, hf.tokens, hf.logprobs, Nat.min_self]
  zeros := fun i p p' hp hp' => by
    change (List.zipWith _ s.lossMask s.logprobs)[i]? = some p' at hp'
    rw [List.getElem?_zipWith, hp] at hp'
    cases hm : s.lossMask[i]? with
    | none =>
      rw [hm] at hp'
      cases hp'
    | some m =>
      rw [hm] at hp'
      have hmask := List.all_eq_true.mp hf.masks m (List.mem_of_getElem? hm)
      have he : (if isZero m then Json.float (.finite 0) else p) = p' := Option.some.inj hp'
      by_cases hz : isZero m = true
      · rw [if_pos hz] at he
        rw [mask_zero hmask hz] at hm ⊢
        exact .inr ⟨rfl, ⟨List.all_eq_true.mp hf.finite p (List.mem_of_getElem? hp),
          hs.placeholder hf (Nat.zero_le i) hm hp⟩, by rw [← he]; rfl, by rw [← he]; decide⟩
      · rw [if_neg hz] at he
        exact .inl he

/-- **The turns of the made record** build the stream, behind the segments before it. -/
theorem made_adds {sid : Json} {roles : Roles} {agent : Option String} {role : String} {k : Nat}
    (hf : Framed s) (hs : ShapedFrom s 0 s.completions) (hc : s.completions ≠ [])
    (hrole : roleOf roles agent = some role) :
    ∃ pre current, AddsTurns sid roles true [] .empty (madeTurns s agent k)
      ⟨pre ++ [{ openStream sid agent role k with
        tokens := s.tokens, lossMask := s.lossMask, logprobs := s.cleared,
        completions := s.completions }], current⟩ ∧
      ∀ x ∈ pre, ∃ j, x = (filler agent).extend (openStream sid agent role j) := by
  have hstart : Follows sid roles [] [] .empty .empty := .start
  obtain ⟨st, hst, hfill⟩ := fillers_add hrole k hstart
  have hcount : (tallyTurns .empty (List.replicate k (filler agent))).count agent = k := by
    rw [fillers_count]
    exact Nat.zero_add k
  unfold madeTurns
  cases hcs : s.completions with
  | nil => exact absurd hcs hc
  | cons c rest =>
    rw [hcs] at hs
    obtain ⟨start, stop, hspan, -, -⟩ := id hs
    have hturns : s.rawTurns agent true 0 (c :: rest) =
        s.rawTurn agent true c 0 start stop :: s.rawTurns agent false stop rest := by
      conv_lhs => unfold TrainingStream.rawTurns
      simp only [hspan]
    -- the first turn opens the stream, the others extend it
    have hopen := reset_adds (hstart.run hst) (u := s.rawTurn agent true c 0 start stop) rfl hrole
    rw [show (s.rawTurn agent true c 0 start stop).agent = agent from rfl, hcount] at hopen
    have hlater := @extends_last sid roles agent role hrole st.streams
      (st.current.set agent st.streams.length) (by rw [Dict.get?_set, if_pos rfl])
      (s.rawTurns agent false stop rest)
      ((s.rawTurn agent true c 0 start stop).extend (openStream sid agent role k))
      (fun u hu => rawTurns_mem hu)
    have hbuild := @rawTurns_build s agent hf _ _ true (openStream sid agent role k) hs rfl rfl rfl
    rw [hturns, List.foldl_cons] at hbuild
    rw [hbuild] at hlater
    rw [hturns]
    refine ⟨st.streams, _, hst.append ⟨_, hopen, hlater⟩, fun x hx => ?_⟩
    rcases hfill x hx with hx | hx
    · cases hx
    · exact hx

/-- Without captures a stream stays as it is. -/
theorem attachBlob_none (hb : s.routedExperts = .null) : attachBlob [] s = s := by
  obtain ⟨sid, agentId, role, segmentIndex, tokens, lossMask, logprobs, completions, blob⟩ := s
  cases hb
  unfold attachBlob
  congr 1
  dsimp only
  split <;> rfl

/-- **A shaped stream is produced** by the record made of it. -/
theorem shaped_produced (hf : Framed s) (hs : ShapedFrom s 0 s.completions)
    (hb : s.routedExperts = .null) (hc : s.completions ≠ []) :
    ∃ record roles streams, recordToStreams record roles true false = .ok streams ∧
      { s with logprobs := s.cleared } ∈ streams := by
  obtain ⟨sid, hsid, hsidname⟩ := hf.sessionId
  obtain ⟨agent, ha⟩ := hf.agent
  obtain ⟨role, hrole, hrolename⟩ := hf.role
  obtain ⟨k, hk⟩ := hf.segmentIndex
  have hagent : s.agentId = agentJson agent := by
    rcases hf.agentId with h | ⟨a, h, -⟩ <;> rw [h] at ha ⊢ <;> cases ha <;> rfl
  have hagentname : agentJson agent = .null ∨ ∃ a, agentJson agent = .str a ∧ isBlank a = false := by
    rw [← hagent]
    exact hf.agentId
  have hregistered : roleOf [(agent, role)] agent = some role := by
    rw [roleOf, List.lookup_cons, beq_self_eq_true]
  -- `k` fillers in front give the stream its number
  obtain ⟨pre, current, hadds, hpre⟩ := @made_adds _ s.sessionId _ _ _ k hf hs hc
    hregistered
  have hself : { openStream s.sessionId agent role k with
      tokens := s.tokens, lossMask := s.lossMask, logprobs := s.cleared,
      completions := s.completions } = { s with logprobs := s.cleared } := by
    unfold openStream
    rw [← hagent, ← hrole, ← hk, ← hb]
  rw [hself] at hadds
  -- what the conversion checks besides its turns: the roles, and the streams it has made
  have hroles : checkRoles [(agent, role)] = .ok () := by
    have hid : checkAgentId agent = .ok () := by
      cases agent with
      | none => rfl
      | some a =>
        rcases hagentname with h | ⟨a', h, hblank⟩
        · cases h
        · cases h
          exact checkName_iff.mpr ⟨a, rfl, hblank⟩
    rw [checkRoles, hid, ok_bind, checkName_iff.mpr ⟨role, rfl, hrolename⟩]
    rfl
  have hbare : ∀ x ∈ pre ++ [{ s with logprobs := s.cleared }], x.routedExperts = .null := by
    intro x hx
    rcases List.mem_append.mp hx with hx | hx
    · obtain ⟨j, rfl⟩ := hpre x hx
      rfl
    · rw [List.mem_singleton.mp hx]
      exact hb
  have hvalid : ∀ x ∈ pre ++ [{ s with logprobs := s.cleared }], x.validate false = .ok () := by
    intro x hx
    rcases List.mem_append.mp hx with hx | hx
    · obtain ⟨j, rfl⟩ := hpre x hx
      rw [hsid]
      exact filler_valid hsidname hrolename hagentname j
    · rw [List.mem_singleton.mp hx]
      exact (cleared_aside hf hs).valid hb ((validate_shaped hb).mpr ⟨hf, hs⟩)
  have hattach : (pre ++ [{ s with logprobs := s.cleared }]).map (attachBlob []) =
      pre ++ [{ s with logprobs := s.cleared }] :=
    (List.map_congr_left fun x hx => attachBlob_none (hbare x hx)).trans (List.map_id _)
  have hread : List.Forall₂ ReadAs ((madeTurns s agent k).map RawTurn.json) (madeTurns s agent k) :=
    List.forall₂_map_left_iff.mpr (List.forall₂_same.mpr fun u _ => u.json_read)
  have haccepted : Accepted .empty (madeTurns s agent k) :=
    fillers_accepted (fun t => rawTurns_accepted hf hs (.inl ⟨rfl, rfl⟩)) k _
  refine ⟨madeRecord s agent k, [(agent, role)], pre ++ [{ s with logprobs := s.cleared }],
    conversion_iff.mpr ⟨_, _, [], madeTurns s agent k, _, ⟨rfl, rfl, rfl, hroles,
      checkName_iff.mpr ⟨sid, hsid, hsidname⟩, hread, haccepted, rfl, hadds, hattach.symm, hvalid⟩⟩,
    List.mem_append_right _ (List.mem_singleton.mpr rfl)⟩

end Produce

/-! ## 5. The stream as a whole -/

/-- The position lies in the span. -/
def InSpan (x : Nat × Nat) (i : Nat) : Prop := x.1 ≤ i ∧ i < x.2

/-- The completions behind `cursor` have these spans, in order, disjoint and up to the end; a mask
    is 1 on the spans and 0 elsewhere, and where it is 0 the logprob is zero. -/
structure SpreadFrom (s : TrainingStream) (cursor : Nat) (cs : List TrainingCompletion)
    (spans : List (Nat × Nat)) : Prop where
  bounds : List.Forall₂ (fun (c : TrainingCompletion) (x : Nat × Nat) =>
    c.start = .int x.1 ∧ c.stop = .int x.2) cs spans
  forward : ∀ x ∈ spans, cursor ≤ x.1 ∧ x.1 ≤ x.2
  disjoint : spans.Pairwise fun x y => x.2 ≤ y.1
  ends : (spans.getLast?.map Prod.snd).getD cursor = s.tokens.length
  sampled : ∀ i m, cursor ≤ i → s.lossMask[i]? = some m → (∃ x ∈ spans, InSpan x i) → m = .int 1
  prompts : ∀ i m, cursor ≤ i → s.lossMask[i]? = some m → (¬∃ x ∈ spans, InSpan x i) → m = .int 0
  placeholders : ∀ i p, cursor ≤ i → s.logprobs[i]? = some p → (¬∃ x ∈ spans, InSpan x i) →
    isZero p = true
  tokenIds : ∀ i v, cursor ≤ i → s.tokens[i]? = some v → ∃ n : Nat, v = .int n
  led : ∀ x ∈ spans, x.1 < x.2 → 0 < x.1
  attested : ∀ c ∈ cs, c.Attested

/-- A stream as a record produces it. -/
structure WellShaped (s : TrainingStream) : Prop where
  framed : Framed s
  spread : ∃ spans, SpreadFrom s 0 s.completions spans

section Spread

variable {s : TrainingStream}

theorem isTokenIds_iff {l : List Json} :
    isTokenIds (.arr l) = true ↔ ∀ v ∈ l, ∃ n : Nat, v = .int n := by
  unfold isTokenIds
  rw [List.all_eq_true]
  refine forall₂_congr fun v _ => ?_
  cases v with
  | int n =>
    rw [decide_eq_true_eq]
    constructor
    · intro h
      exact ⟨n.toNat, by rw [Int.toNat_of_nonneg h]⟩
    · rintro ⟨k, hk⟩
      cases hk
      exact Int.natCast_nonneg k
  | _ => simp

theorem span_all {p : Json → Bool} {l : List Json} {a b : Nat} :
    (span l a b).all p = true ↔ ∀ i v, a ≤ i → i < b → l[i]? = some v → p v = true := by
  rw [List.all_eq_true]
  constructor
  · exact fun h i v ha hb hv => h v (mem_span hv ha hb)
  · intro h v hv
    obtain ⟨i, ha, hb, hi⟩ := span_mem hv
    exact h i v ha hb hi

theorem isZero_zero : isZero (.int 0) = true := by decide

theorem isOne_one : isOne (.int 1) = true := by decide

/-- **The spans of a shaped stream.** -/
theorem ShapedFrom.spread (hf : Framed s) : ∀ {cs : List TrainingCompletion} {cursor : Nat},
    ShapedFrom s cursor cs → ∃ spans, SpreadFrom s cursor cs spans
  | [], cursor, h => by
      have hcursor : cursor = s.tokens.length := h
      have hno : ∀ {l : List Json} {i : Nat} {v : Json}, l.length = s.tokens.length → cursor ≤ i →
          l[i]? = some v → False := fun hl hi hv => by
        have := (List.getElem?_eq_some_iff.mp hv).1
        omega
      exact ⟨[], .nil, nofun, .nil, hcursor, fun i m hi hm => (hno hf.tokens hi hm).elim,
        fun i m hi hm => (hno hf.tokens hi hm).elim, fun i p hi hp => (hno hf.logprobs hi hp).elim,
        fun i v hi hv => (hno rfl hi hv).elim, nofun, nofun⟩
  | c :: rest, cursor, ⟨start, stop, hspan, hok, hrest⟩ => by
      obtain ⟨hstart, hstop, hca, hab, hlen⟩ := spanOf_some hspan
      obtain ⟨spans, h⟩ := hrest.spread hf
      have hmask : ∀ {i : Nat} {m : Json}, s.lossMask[i]? = some m → isMask m = true :=
        fun hm => List.all_eq_true.mp hf.masks _ (List.mem_of_getElem? hm)
      -- behind the first span only the later ones count
      have hlater : ∀ {i : Nat}, stop ≤ i →
          ((∃ x ∈ (start, stop) :: spans, InSpan x i) ↔ ∃ x ∈ spans, InSpan x i) := fun hi => by
        simp only [List.mem_cons, exists_eq_or_imp, InSpan]
        exact or_iff_right fun h => absurd h.2 (by omega)
      have hfirst : ∀ {i : Nat}, i < stop →
          ((∃ x ∈ (start, stop) :: spans, InSpan x i) ↔ start ≤ i) := fun hi => by
        simp only [List.mem_cons, exists_eq_or_imp, InSpan]
        constructor
        · rintro (h' | ⟨x, hx, hxi⟩)
          · exact h'.1
          · have := (h.forward x hx).1
            omega
        · exact fun h' => .inl ⟨h', hi⟩
      refine ⟨(start, stop) :: spans, .cons ⟨hstart, hstop⟩ h.bounds,
        List.forall_mem_cons.mpr ⟨⟨hca, hab⟩, fun x hx => ?_⟩, ?_, ?_, fun i m hi hm hin => ?_,
        fun i m hi hm hout => ?_, fun i p hi hp hout => ?_, fun i v hi hv => ?_,
        List.forall_mem_cons.mpr ⟨hok.led, h.led⟩, List.forall_mem_cons.mpr ⟨hok.attested, h.attested⟩⟩
      · have := h.forward x hx
        omega
      · exact List.pairwise_cons.mpr ⟨fun x hx => (h.forward x hx).1, h.disjoint⟩
      · have hends := h.ends
        cases spans with
        | nil => exact hends
        | cons x spans => rwa [List.getLast?_cons_cons]
      · rcases Nat.lt_or_ge i stop with hs | hs
        · exact mask_one (hmask hm) (span_all.mp hok.sampled i m ((hfirst hs).mp hin) hs hm)
        · exact h.sampled i m hs hm ((hlater hs).mp hin)
      · rcases Nat.lt_or_ge i stop with hs | hs
        · have hi' : i < start := Nat.lt_of_not_le fun h' => hout ((hfirst hs).mpr h')
          exact mask_zero (hmask hm) (span_all.mp hok.prompt i m hi hi' hm)
        · exact h.prompts i m hs hm fun h' => hout ((hlater hs).mpr h')
      · rcases Nat.lt_or_ge i stop with hs | hs
        · have hi' : i < start := Nat.lt_of_not_le fun h' => hout ((hfirst hs).mpr h')
          exact span_all.mp hok.placeholders i p hi hi' hp
        · exact h.placeholders i p hs hp fun h' => hout ((hlater hs).mpr h')
      · rcases Nat.lt_or_ge i start with hs | hs
        · exact isTokenIds_iff.mp hok.promptIds v (mem_span hv hi hs)
        · rcases Nat.lt_or_ge i stop with hs' | hs'
          · exact isTokenIds_iff.mp hok.completionIds v (mem_span hv hs hs')
          · exact h.tokenIds i v hs' hv

/-- **Back to the cursor.** -/
theorem SpreadFrom.shaped (hf : Framed s) : ∀ {cs : List TrainingCompletion} {cursor : Nat}
    {spans : List (Nat × Nat)}, SpreadFrom s cursor cs spans → ShapedFrom s cursor cs
  | [], cursor, [], h => h.ends
  | [], cursor, _ :: _, h => by cases h.bounds
  | _ :: _, cursor, [], h => by cases h.bounds
  | c :: rest, cursor, (start, stop) :: spans, h => by
      obtain ⟨⟨hstart, hstop⟩, hbounds⟩ := List.forall₂_cons.mp h.bounds
      obtain ⟨⟨hca, hab⟩, hforward⟩ := List.forall_mem_cons.mp h.forward
      obtain ⟨hbehind, hdisjoint⟩ := List.pairwise_cons.mp h.disjoint
      -- the spans behind the first end where the stream does
      have hends : (spans.getLast?.map Prod.snd).getD stop = s.tokens.length := by
        have := h.ends
        cases spans with
        | nil => exact this
        | cons x spans => rwa [List.getLast?_cons_cons] at this
      have hlen : stop ≤ s.tokens.length := by
        rw [← hends]
        cases hl : spans.getLast? with
        | none => exact le_rfl
        | some x =>
          have hx := List.mem_of_getLast? hl
          exact (hbehind x hx).trans (hforward x hx).2
      have hin : ∀ {i : Nat}, start ≤ i → i < stop → ∃ x ∈ (start, stop) :: spans, InSpan x i :=
        fun ha hb => ⟨_, List.mem_cons_self, ha, hb⟩
      have hout : ∀ {i : Nat}, i < start → ¬∃ x ∈ (start, stop) :: spans, InSpan x i := by
        rintro i hi ⟨x, hx, hxi⟩
        rcases List.mem_cons.mp hx with rfl | hx
        · exact absurd hxi.1 (by omega)
        · have := hbehind x hx
          have := hxi.1
          omega
      -- behind the first span it is the others that hold a position
      have hlater : ∀ {i : Nat}, stop ≤ i →
          ((∃ x ∈ (start, stop) :: spans, InSpan x i) ↔ ∃ x ∈ spans, InSpan x i) := fun hi => by
        simp only [List.mem_cons, exists_eq_or_imp, InSpan]
        exact or_iff_right fun h => absurd h.2 (by omega)
      have hspan : spanOf c cursor s.tokens.length = some (start, stop) := by
        unfold spanOf
        rw [hstart, hstop]
        simp [hca, hab, hlen]
      refine ⟨start, stop, hspan, ⟨span_all.mpr fun i m ha hb hm => ?_,
        span_all.mpr fun i m ha hb hm => ?_, span_all.mpr fun i p ha hb hp => ?_,
        isTokenIds_iff.mpr fun v hv => ?_, isTokenIds_iff.mpr fun v hv => ?_,
        h.led _ List.mem_cons_self, h.attested c List.mem_cons_self⟩,
        SpreadFrom.shaped hf (?_ : SpreadFrom s stop rest spans)⟩
      · rw [h.prompts i m ha hm (hout hb)]
        exact isZero_zero
      · rw [h.sampled i m (hca.trans ha) hm (hin ha hb)]
        exact isOne_one
      · exact h.placeholders i p ha hp (hout hb)
      · obtain ⟨i, ha, hb, hi⟩ := span_mem hv
        exact h.tokenIds i v ha hi
      · obtain ⟨i, ha, hb, hi⟩ := span_mem hv
        exact h.tokenIds i v (hca.trans ha) hi
      · have hle : ∀ {i : Nat}, stop ≤ i → cursor ≤ i := fun hi => (hca.trans hab).trans hi
        exact ⟨hbounds, fun x hx => ⟨hbehind x hx, (hforward x hx).2⟩, hdisjoint, hends,
          fun i m hi hm hx => h.sampled i m (hle hi) hm ((hlater hi).mpr hx),
          fun i m hi hm hx => h.prompts i m (hle hi) hm fun h' => hx ((hlater hi).mp h'),
          fun i p hi hp hx => h.placeholders i p (hle hi) hp fun h' => hx ((hlater hi).mp h'),
          fun i v hi hv => h.tokenIds i v (hle hi) hv,
          fun x hx => h.led x (List.mem_cons_of_mem _ hx),
          fun x hx => h.attested x (List.mem_cons_of_mem _ hx)⟩

end Spread

/-- **The valid streams are the ones a record produces**: those that are well shaped. -/
theorem validate_iff_producible (s : TrainingStream) (hb : s.routedExperts = .null)
    (hc : s.completions ≠ []) :
    (s.validate false = .ok () ↔ Producible s) ∧ (s.validate false = .ok () ↔ WellShaped s) := by
  constructor
  · constructor
    · intro h
      obtain ⟨hf, hs⟩ := (validate_shaped hb).mp h
      obtain ⟨record, roles, streams, hrun, hmem⟩ := shaped_produced hf hs hb hc
      exact ⟨record, roles, streams, _, hrun, hmem, cleared_aside hf hs⟩
    · rintro ⟨record, roles, streams, s', hrun, hmem, haside⟩
      obtain ⟨fields, turns, blobs, us, st, hconv⟩ := conversion_iff.mp hrun
      refine haside.symm.valid ?_ (hconv.valid s' hmem)
      rw [← haside.rest]
      exact hb
  · rw [validate_shaped hb]
    constructor
    · rintro ⟨hf, hs⟩
      exact ⟨hf, hs.spread hf⟩
    · rintro ⟨hf, spans, hs⟩
      exact ⟨hf, hs.shaped hf⟩

/-- A stream with an empty span between two sampled ones. -/
theorem validate_iff_producible_firstSegment : (firstSegment "s").validate false = .ok () ∧
    Producible (firstSegment "s") ∧ WellShaped (firstSegment "s") := by
  have hv : (firstSegment "s").validate false = .ok () := by decide +kernel
  have h := validate_iff_producible (firstSegment "s") rfl (List.cons_ne_nil _ _)
  exact ⟨hv, h.1.mp hv, h.2.mp hv⟩

end RolloutProxy
