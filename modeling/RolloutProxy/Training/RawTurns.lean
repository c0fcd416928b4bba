/-
  File:      RolloutProxy/Training/RawTurns.lean
  Subject:   RAW TURNS as the record check and the conversion read them, whatever else they hold.

  * A turn passes the check exactly where it reads as a sound one (`checkTurn_iff`), and so does a
    record (`checkTurns_iff`); the tally behind it is `RawTurn.tally`.
  * `RawTurn.extend` is what the turn adds to its stream.
-/
import RolloutProxy.Training.StreamShape

namespace RolloutProxy

/-! ## 1. Reading a turn -/

/-- What is read out of a raw turn. -/
structure RawTurn where
  agent : Option String
  reset : Bool
  prompt : List Json
  completion : List Json
  logprobs : List Json
  sampling : Json
  weightVersion : Json
  finishReason : Json

namespace RawTurn

variable (u : RawTurn)

def tokens : List Json := u.prompt ++ u.completion

structure ReadFrom (turn : Fields) : Prop where
  agent : agentOf (turn.get "agent_id") = some u.agent
  reset : turn.getD "new_conversation" (.bool false) = .bool u.reset
  prompt : turn.getD "prompt_token_ids" (.arr []) = .arr u.prompt
  completion : turn.get "completion_token_ids" = .arr u.completion
  logprobs : turn.getD "completion_logprobs" (.arr []) = .arr u.logprobs
  sampling : turn.get "sampling_params" = u.sampling
  weightVersion : turn.get "weight_version" = u.weightVersion
  finishReason : turn.get "finish_reason" = u.finishReason

/-- What a trainable turn consists of. -/
structure Sound : Prop where
  promptIds : isTokenIds (.arr u.prompt) = true
  completionIds : isTokenIds (.arr u.completion) = true
  finite : isFiniteList (.arr u.logprobs) = true
  aligned : u.logprobs.length = u.completion.length
  sampling : isSamplingParams u.sampling = true

/-- What is sampled has a token in front of it in its conversation. -/
def Leads (t : Tally) : Prop :=
  u.completion ≠ [] → u.prompt ≠ [] ∨ (t.start u.agent u.reset).length u.agent ≠ 0

/-- The tally behind the turn. -/
def tally (t : Tally) : Tally := t.turn u.agent u.reset u.tokens.length

end RawTurn

section Check

variable {turn : Fields} {u : RawTurn} {i : Nat} {t t' : Tally}

theorem truthy_arr (l : List Json) : (Json.arr l).truthy = !l.isEmpty := rfl

/-- A sound turn passes, whatever is required of it. -/
theorem checkTurn_readFrom (hu : u.ReadFrom turn) (hs : u.Sound) (hl : u.Leads t)
    (selected : Option (List (Option String))) (requireLogprobs : Bool) (i : Nat) :
    checkTurn selected requireLogprobs i t (.obj turn) = .ok (u.tally t) := by
  have hlead : (!(isSelected selected u.agent && requireLogprobs && !u.completion.isEmpty &&
      !(!u.prompt.isEmpty) && (t.start u.agent u.reset).length u.agent == 0)) = true := by
    rw [Bool.not_eq_true', Bool.eq_false_iff]
    intro h
    simp only [Bool.and_eq_true, Bool.not_eq_true', Bool.not_eq_false', beq_iff_eq,
      List.isEmpty_iff, List.isEmpty_eq_false_iff] at h
    rcases hl h.1.1.2 with hp | ht
    · exact hp h.1.2
    · exact ht h.2
  unfold checkTurn
  simp only [hu.agent, hu.prompt, hu.completion, hu.reset, hu.logprobs, hu.sampling, hs.promptIds,
    hs.completionIds, hs.finite, hs.sampling, guardE, truthy_arr, hlead, lengthOf, hs.aligned,
    bne_self_eq_false, Bool.and_false, Bool.not_false, if_true, ok_bind]
  unfold RawTurn.tally RawTurn.tokens Tally.turn
  rw [List.length_append]
  rfl

theorem isTokenIds_arr {v : Json} (h : isTokenIds v = true) : ∃ l, v = .arr l := by
  cases v with
  | arr l => exact ⟨l, rfl⟩
  | _ => cases h

theorem isFiniteList_arr {v : Json} (h : isFiniteList v = true) : ∃ l, v = .arr l := by
  cases v with
  | arr l => exact ⟨l, rfl⟩
  | _ => cases h

/-- **A turn passes exactly where it reads as a sound one.** -/
theorem checkTurn_iff : checkTurn none true i t (.obj turn) = .ok t' ↔
    ∃ u : RawTurn, u.ReadFrom turn ∧ u.Sound ∧ u.Leads t ∧ t' = u.tally t := by
  constructor
  · intro h
    cases hagent : agentOf (turn.get "agent_id") with
    | none =>
      simp only [checkTurn, hagent] at h
      cases h
    | some agent =>
      simp only [checkTurn, hagent] at h
      obtain ⟨_, hprompt, h⟩ := bind_ok h
      obtain ⟨_, hcompletion, h⟩ := bind_ok h
      rw [guardE_ok] at hprompt hcompletion
      split at h
      · next reset hreset =>
        obtain ⟨_, hlead, h⟩ := bind_ok h
        obtain ⟨_, hfinite, h⟩ := bind_ok h
        obtain ⟨_, haligned, h⟩ := bind_ok h
        obtain ⟨_, hsampling, h⟩ := bind_ok h
        rw [guardE_ok] at hlead hfinite haligned hsampling
        cases h
        obtain ⟨prompt, hp⟩ := isTokenIds_arr hprompt
        obtain ⟨completion, hc⟩ := isTokenIds_arr hcompletion
        obtain ⟨logprobs, hl⟩ := isFiniteList_arr hfinite
        rw [hp] at hprompt hlead
        rw [hc] at hcompletion hlead haligned
        rw [hl] at hfinite haligned
        rw [hp, hc]
        refine ⟨⟨agent, reset, prompt, completion, logprobs, _, _, _⟩,
          ⟨hagent, hreset, hp, hc, hl, rfl, rfl, rfl⟩,
          ⟨hprompt, hcompletion, hfinite, ?_, hsampling⟩, fun hne => ?_, ?_⟩
        · simpa [isSelected, lengthOf] using haligned
        · have hne' : completion.isEmpty = false := List.isEmpty_eq_false_iff.mpr hne
          simp only [isSelected, truthy_arr, hne', Bool.and_self, Bool.not_false, Bool.true_and,
            Bool.not_not, Bool.not_eq_true', Bool.and_eq_false_iff, beq_eq_false_iff_ne] at hlead
          exact hlead.imp List.isEmpty_eq_false_iff.mp id
        · unfold RawTurn.tally RawTurn.tokens Tally.turn
          rw [List.length_append]
          rfl
      · cases h
  · rintro ⟨u, hu, hs, hl, rfl⟩
    exact checkTurn_readFrom hu hs hl none true i

end Check

/-! ## 2. The turns of a record -/

/-- The turn reads as `u`. -/
def ReadAs (turn : Json) (u : RawTurn) : Prop := ∃ f, turn = .obj f ∧ u.ReadFrom f

/-- Sound turns, each with a token in front of what its conversation samples first. -/
def Accepted : Tally → List RawTurn → Prop
  | _, [] => True
  | t, u :: us => u.Sound ∧ u.Leads t ∧ Accepted (u.tally t) us

/-- The tally behind the turns. -/
def tallyTurns (t : Tally) (us : List RawTurn) : Tally := us.foldl (fun t u => u.tally t) t

/-- Turns that are accepted pass, whatever is required of them. -/
theorem checkTurns_accepted (selected : Option (List (Option String))) (requireLogprobs : Bool) :
    ∀ {turns : List Json} {us : List RawTurn} {t : Tally} (i : Nat),
      List.Forall₂ ReadAs turns us → Accepted t us →
        checkTurns selected requireLogprobs i t turns = .ok (tallyTurns t us) := by
  intro turns us t i hread ha
  induction hread generalizing t i with
  | nil => rfl
  | cons hturn _ ih =>
    obtain ⟨f, hf, hu⟩ := hturn
    obtain ⟨hs, hl, hus⟩ := ha
    rw [checkTurns, hf, checkTurn_readFrom hu hs hl selected requireLogprobs i, ok_bind,
      ih (i + 1) hus]
    rfl

/-- **The turns pass exactly where they are accepted.** -/
theorem checkTurns_iff {t' : Tally} : ∀ {turns : List Json} {t : Tally} {i : Nat},
    checkTurns none true i t turns = .ok t' ↔
      ∃ us, List.Forall₂ ReadAs turns us ∧ Accepted t us ∧ t' = tallyTurns t us
  | [], t, _ => by
      constructor
      · intro h
        cases h
        exact ⟨[], .nil, trivial, rfl⟩
      · rintro ⟨us, hread, -, rfl⟩
        cases hread
        rfl
  | turn :: turns, t, i => by
      constructor
      · intro h
        obtain ⟨t₁, hturn, h⟩ := bind_ok h
        cases turn with
        | obj f =>
          obtain ⟨u, hu, hs, hl, rfl⟩ := checkTurn_iff.mp hturn
          obtain ⟨us, hread, hus, rfl⟩ := checkTurns_iff.mp h
          exact ⟨u :: us, .cons ⟨f, rfl, hu⟩ hread, ⟨hs, hl, hus⟩, rfl⟩
        | _ => cases hturn
      · rintro ⟨us, hread, hus, rfl⟩
        exact checkTurns_accepted none true i hread hus

/-! ## 3. What a turn adds to its stream -/

namespace RawTurn

variable (u : RawTurn)

def mask : List Json :=
  List.replicate u.prompt.length (.int 0) ++ List.replicate u.completion.length (.int 1)

def probs : List Json := List.replicate u.prompt.length (.float (.finite 0)) ++ u.logprobs

/-- The completion span of a turn whose first token is at position `n`. -/
def spanAt (n : Nat) : TrainingCompletion where
  start := .int ((n + u.prompt.length : Nat))
  stop := .int ((n + u.prompt.length + u.completion.length : Nat))
  weightVersion := u.weightVersion
  samplingParams := u.sampling
  finishReason := u.finishReason

def extend (s : TrainingStream) : TrainingStream :=
  { s with
    tokens := s.tokens ++ u.tokens
    lossMask := s.lossMask ++ u.mask
    logprobs := s.logprobs ++ u.probs
    completions := s.completions ++ [u.spanAt s.tokens.length] }

end RawTurn

section Streams

variable {turn : Fields} {u : RawTurn} {sid : Json} {roles : Roles} {allow : Bool}
  {blobs : Fields} {st st' : StreamsState}

theorem extendStream_readFrom (hu : u.ReadFrom turn) (s : TrainingStream) :
    extendStream turn s = u.extend s := by
  unfold extendStream RawTurn.extend
  simp only [hu.prompt, hu.completion, hu.logprobs, hu.sampling, hu.weightVersion,
    hu.finishReason, itemsOf]
  rw [List.append_assoc]
  rfl

/-- How a turn is added: it opens a stream, or it extends its agent's open one. -/
inductive Adds (sid : Json) (roles : Roles) (allow : Bool) (blobs : Fields) (st : StreamsState)
    (u : RawTurn) : StreamsState → Prop
  | first {role : String} (hrole : roleOf roles u.agent = some role)
      (hnew : (st.current.get? u.agent).bind (st.streams[·]?) = none) :
      Adds sid roles allow blobs st u
        { streams := st.streams ++ [u.extend (openStream sid u.agent role 0)]
          current := st.current.set u.agent st.streams.length }
  | reset {role : String} {i : Nat} {s : TrainingStream} (hrole : roleOf roles u.agent = some role)
      (hi : st.current.get? u.agent = some i) (hs : st.streams[i]? = some s)
      (hreset : u.reset = true) (hallow : allow = true)
      (hblob : u.agent.elim false blobs.has = false) :
      Adds sid roles allow blobs st u
        { streams := st.streams ++ [u.extend (openStream sid u.agent role (nextSegment s))]
          current := st.current.set u.agent st.streams.length }
  | more {role : String} {i : Nat} {s : TrainingStream} (hrole : roleOf roles u.agent = some role)
      (hi : st.current.get? u.agent = some i) (hs : st.streams[i]? = some s)
      (hreset : u.reset = false) :
      Adds sid roles allow blobs st u { st with streams := st.streams.set i (u.extend s) }

/-- **The step of the conversion.** -/
theorem addTurn_iff (hu : u.ReadFrom turn) :
    addTurn sid roles allow blobs st turn = .ok st' ↔ Adds sid roles allow blobs st u st' := by
  have hopen : ∀ role k, extendStream turn (openStream sid u.agent role k) =
      u.extend (openStream sid u.agent role k) := fun _ _ => extendStream_readFrom hu _
  unfold addTurn
  simp only [hu.agent]
  constructor
  · intro h
    split at h
    · cases h
    · next role hrole =>
      -- the agent has no stream yet, or it restarts, or its stream goes on
      split at h
      · next hnone =>
        cases h
        rw [hopen]
        refine .first hrole ?_
        cases hi : st.current.get? u.agent with
        | none => rfl
        | some i =>
          rw [hi] at hnone
          exact Option.map_eq_none_iff.mp hnone
      · next i s hsome =>
        obtain ⟨j, hi, hs⟩ := Option.bind_eq_some_iff.mp hsome
        obtain ⟨s', hs', he⟩ := Option.map_eq_some_iff.mp hs
        cases he
        simp only [hu.reset, Json.truthy] at h
        split at h
        · next hreset =>
          split at h
          · cases h
          · next hallowed =>
            simp only [Bool.or_eq_true, Bool.not_eq_true', not_or, Bool.not_eq_false,
              Bool.not_eq_true] at hallowed
            cases h
            rw [hopen]
            exact .reset hrole hi hs' hreset hallowed.1 hallowed.2
        · next hreset =>
          cases h
          rw [extendStream_readFrom hu]
          exact .more hrole hi hs' (by simpa using hreset)
  · intro h
    cases h with
    | first hrole hnew =>
      have hnone : ((st.current.get? u.agent).bind fun i => st.streams[i]?.map fun s => (i, s)) =
          none := by
        cases hi : st.current.get? u.agent with
        | none => rfl
        | some i =>
          rw [hi] at hnew
          exact Option.map_eq_none_iff.mpr hnew
      simp only [hrole, hnone, hopen]
    | reset hrole hi hs hreset hallow hblob =>
      simp only [hrole, hi, Option.bind_some, hs, Option.map_some, hu.reset, Json.truthy, hreset,
        if_true, hallow, hblob, Bool.not_true, Bool.or_self, Bool.false_eq_true, if_false, hopen]
    | more hrole hi hs hreset =>
      simp only [hrole, hi, Option.bind_some, hs, Option.map_some, hu.reset, Json.truthy, hreset,
        Bool.false_eq_true, if_false, extendStream_readFrom hu]

/-- The turns of a record, added one after the other. -/
def AddsTurns (sid : Json) (roles : Roles) (allow : Bool) (blobs : Fields) :
    StreamsState → List RawTurn → StreamsState → Prop
  | st, [], st' => st' = st
  | st, u :: us, st' => ∃ st₁, Adds sid roles allow blobs st u st₁ ∧
      AddsTurns sid roles allow blobs st₁ us st'

theorem addTurns_iff : ∀ {turns : List Json} {us : List RawTurn} {st : StreamsState},
    List.Forall₂ ReadAs turns us → (addTurns sid roles allow blobs st turns = .ok st' ↔
      AddsTurns sid roles allow blobs st us st')
  | [], _, _, .nil => ⟨fun h => (Except.ok.inj h).symm, fun h => congrArg Except.ok h.symm⟩
  | _ :: turns, u :: us, st, .cons ⟨f, hf, hu⟩ hrest => by
      rw [hf]
      constructor
      · intro h
        obtain ⟨st₁, hturn, h⟩ := bind_ok h
        exact ⟨st₁, (addTurn_iff hu).mp hturn, (addTurns_iff hrest).mp h⟩
      · rintro ⟨st₁, hturn, h⟩
        rw [addTurns, (addTurn_iff hu).mpr hturn, ok_bind]
        exact (addTurns_iff hrest).mpr h

end Streams

end RolloutProxy
