/-
  File:      RolloutProxy/Training/Agreement.lean
  Subject:   TWO CHECKS, ONE VERDICT: `validate_session_record` (validation.py) on a record and
             `validate_training_results` (training.py) on the streams it converts to.

  * `checkCaptures_iff`, `validate_covered`: coverage of a record, and of one of its streams.
  * `meets`: what both ask of a sampled turn (`checkCompletion_iff`, `collectTurns_iff`).
  * `checks_agree`: for the agents of the trained roles both return, or both raise.
-/
import RolloutProxy.Training.Conversations
import RolloutProxy.Training.Collector
import RolloutProxy.Engine.Policy

namespace RolloutProxy

/-! ## 1. Coverage -/

/-- The selected agents' conversations are covered by their captures. -/
def Covered (selected : Option (List (Option String))) (t : Tally) (blobs : Captures) : Prop :=
  ∀ a n, t.lengths.get? a = some n → isSelected selected a = true → n ≠ 0 → t.count a ≤ 1 ∧
    ∃ rows, blobRows blobs a = some rows ∧ rows.pyEq (.int (max 0 ((n : Int) - 1))) = true

section Coverage

variable {selected : Option (List (Option String))} {t : Tally} {blobs : Captures}

theorem checkCoverage_iff : ∀ {entries : List (Option String × Nat)},
    checkCoverage selected t blobs entries = .ok () ↔
      ∀ e ∈ entries, isSelected selected e.1 = true → e.2 ≠ 0 → t.count e.1 ≤ 1 ∧
        ∃ rows, blobRows blobs e.1 = some rows ∧
          rows.pyEq (.int (max 0 ((e.2 : Int) - 1))) = true
  | [] => ⟨fun _ => nofun, fun _ => rfl⟩
  | (a, n) :: rest => by
      rw [List.forall_mem_cons]
      unfold checkCoverage
      by_cases hs : isSelected selected a = true ∧ n ≠ 0
      · rw [if_pos hs]
        constructor
        · intro h
          obtain ⟨_, hcount, h⟩ := bind_ok h
          rw [guardE_ok, decide_eq_true_eq] at hcount
          cases hrows : blobRows blobs a with
          | none =>
            rw [hrows] at h
            cases h
          | some rows =>
            rw [hrows] at h
            obtain ⟨_, heq, h⟩ := bind_ok h
            rw [guardE_ok] at heq
            exact ⟨fun _ _ => ⟨hcount, rows, rfl, heq⟩, checkCoverage_iff.mp h⟩
        · rintro ⟨hhead, hrest⟩
          obtain ⟨hcount, rows, hrows, heq⟩ := hhead hs.1 hs.2
          have hc : decide ((t.conversations.get? a).getD 0 ≤ 1) = true := decide_eq_true hcount
          simp only [hrows, heq, hc, guardE, if_true, ok_bind, checkCoverage_iff.mpr hrest]
      · rw [if_neg hs]
        exact ⟨fun h => ⟨fun h1 h2 => absurd ⟨h1, h2⟩ hs, checkCoverage_iff.mp h⟩,
          fun h => checkCoverage_iff.mpr h.2⟩

/-- **The checks on the captures.** -/
theorem checkCaptures_iff {req : Bool} : checkCaptures selected req t blobs = .ok () ↔
    checkBlobs t blobs = .ok () ∧ (req = true → Covered selected t blobs) := by
  have hcov : checkCoverage selected t blobs t.lengths.entries = .ok () ↔
      Covered selected t blobs := by
    rw [checkCoverage_iff]
    exact ⟨fun h a n hn => h (a, n) ((Dict.get?_eq_some_iff _ _ _).mp hn),
      fun h e he => h e.1 e.2 ((Dict.get?_eq_some_iff _ _ _).mpr he)⟩
  unfold checkCaptures
  constructor
  · intro h
    obtain ⟨_, hb, h⟩ := bind_ok h
    refine ⟨hb, fun hr => ?_⟩
    rw [if_pos hr] at h
    exact hcov.mp h
  · rintro ⟨hb, hc⟩
    rw [hb, ok_bind]
    split
    · next hr => exact hcov.mpr (hc hr)
    · rfl

end Coverage

/-! ## 2. The coverage of one stream -/

/-- The agent's conversation has this length. -/
def LongAs (a : Option String) (n : Nat) (t : Tally) : Prop :=
  t.lengths.get? a = some n ∨ n = 0 ∧ t.lengths.get? a = none

theorem LongAs.step {a : Option String} {n : Nat} {t : Tally} (h : LongAs a n t) {u : RawTurn}
    (ha : u.agent = a) (hr : u.reset = false) : LongAs a (n + u.tokens.length) (u.tally t) := by
  subst ha
  refine .inl ?_
  rcases h with hn | ⟨rfl, hnone⟩
  · exact (Tally.turn_goes_on hn hr u.agent).1.trans (if_pos rfl)
  · rw [Nat.zero_add]
    exact (Tally.turn_starts (.inl hnone) u.agent).1.trans (if_pos rfl)

/-- What is read out of the turn a completion stands for. -/
theorem turnOf_read {s : TrainingStream} {c : TrainingCompletion} {cursor start stop : Nat}
    {u : RawTurn} {a : Option String} (ha : agentOf s.agentId = some a)
    (hu : ReadAs (s.turnOf c cursor start stop) u) :
    u.agent = a ∧ u.reset = false ∧ u.prompt = span s.tokens cursor start ∧
      u.completion = span s.tokens start stop ∧ u.logprobs = span s.logprobs start stop ∧
      u.sampling = c.samplingParams := by
  obtain ⟨f, hf, hread⟩ := hu
  cases hf
  have hreset : Json.bool false = .bool u.reset := hread.reset
  have hprompt : Json.arr (span s.tokens cursor start) = .arr u.prompt := hread.prompt
  have hcompletion : Json.arr (span s.tokens start stop) = .arr u.completion := hread.completion
  have hlogprobs : Json.arr (span s.logprobs start stop) = .arr u.logprobs := hread.logprobs
  exact ⟨Option.some.inj (hread.agent.symm.trans ha), (Json.bool.inj hreset).symm,
    (Json.arr.inj hprompt).symm, (Json.arr.inj hcompletion).symm, (Json.arr.inj hlogprobs).symm,
    hread.sampling.symm⟩

theorem span_length {l : List Json} {start stop : Nat} (h : stop ≤ l.length) :
    (span l start stop).length = stop - start := by
  unfold span
  rw [List.length_drop, List.length_take, Nat.min_eq_left h]

theorem LongAs.turns {s : TrainingStream} {a : Option String} (ha : agentOf s.agentId = some a) :
    ∀ {cs : List TrainingCompletion} {cursor : Nat} {turns : List Json} {us : List RawTurn}
      {t : Tally}, s.turnsFrom cursor cs = .ok turns → List.Forall₂ ReadAs turns us →
        LongAs a cursor t → LongAs a s.tokens.length (tallyTurns t us)
  | [], cursor, _, us, t, h, hread, ht => by
      obtain ⟨_, hcursor, h⟩ := bind_ok h
      rw [guardE_ok, beq_iff_eq] at hcursor
      cases h
      cases hread
      rw [← hcursor]
      exact ht
  | c :: rest, cursor, turns, us, t, h, hread, ht => by
      unfold TrainingStream.turnsFrom at h
      split at h
      · cases h
      · next start stop hspan =>
        obtain ⟨-, -, hca, hab, hlen⟩ := spanOf_some hspan
        obtain ⟨_, -, h⟩ := bind_ok h
        obtain ⟨_, -, h⟩ := bind_ok h
        obtain ⟨_, -, h⟩ := bind_ok h
        obtain ⟨later, hlater, h⟩ := bind_ok h
        cases h
        obtain ⟨u, us', hu, hus, rfl⟩ := List.forall₂_cons_left_iff.mp hread
        obtain ⟨hagent, hreset, hprompt, hcompletion, -, -⟩ := turnOf_read ha hu
        have hsize : cursor + u.tokens.length = stop := by
          unfold RawTurn.tokens
          rw [hprompt, hcompletion, List.length_append, span_length (by omega),
            span_length hlen]
          omega
        have hstep := ht.step hagent hreset
        rw [hsize] at hstep
        exact (hstep.turns ha hlater hus : LongAs a _ (tallyTurns (u.tally t) us'))

/-- **What a validation asks of a stream's capture.** -/
theorem validate_covered {s : TrainingStream} {req : Bool} (h : s.validate req = .ok ())
    (hr : (req || !s.routedExperts.isNull) = true) (hn : s.tokens ≠ []) {a : Option String}
    (ha : agentOf s.agentId = some a) :
    ∃ rows, blobRows s.captures a = some rows ∧
      rows.pyEq (.int (max 0 ((s.tokens.length : Int) - 1))) = true := by
  obtain ⟨-, turns, hturns, hrecord⟩ := validate_iff.mp h
  obtain ⟨t, ht, hcap⟩ := bind_ok hrecord
  obtain ⟨us, hread, -, rfl⟩ := checkTurns_iff.mp ht
  have hlong : LongAs a s.tokens.length (tallyTurns .empty us) :=
    LongAs.turns ha hturns hread (.inr ⟨rfl, rfl⟩)
  have hlen : s.tokens.length ≠ 0 := fun h0 => hn (List.eq_nil_of_length_eq_zero h0)
  rcases hlong with hget | ⟨h0, -⟩
  · exact (checkCaptures_iff.mp hcap |>.2 hr a _ hget rfl hlen).2
  · exact absurd h0 hlen

/-- **A stream with tokens meets the requirement of a capture exactly where it has one.** -/
theorem validate_required {s : TrainingStream} (h : s.validate false = .ok ())
    (hn : s.tokens ≠ []) : s.validate true = .ok () ↔ s.routedExperts.isNull = false := by
  constructor
  · intro ht
    obtain ⟨hf, -⟩ := validate_iff.mp h
    obtain ⟨a, ha⟩ := hf.agent
    obtain ⟨rows, hrows, -⟩ := validate_covered ht rfl hn ha
    cases hb : s.routedExperts with
    | null =>
      have hnone : s.captures = [] := by
        unfold TrainingStream.captures
        rw [hb]
      rw [hnone] at hrows
      cases hrows
    | _ => rfl
  · intro hnull
    obtain ⟨hf, turns, hturns, hrecord⟩ := validate_iff.mp h
    rw [hnull] at hrecord
    exact validate_iff.mpr ⟨hf, turns, hturns, by rw [hnull]; exact hrecord⟩

/-! ## 3. The policy -/

/-- What both checks ask of a sampled turn. -/
def meets (e : Expectation) (sampling version : Json) : Bool :=
  (e.version.isNull || version.pyEq e.version) &&
    match e.sampling with
    | .obj expected => !mismatched sampling expected
    | _ => true

theorem checkCompletion_iff {e : Expectation} {c : TrainingCompletion} :
    checkCompletion e c = .ok () ↔
      (c.start.asInt ≠ c.stop.asInt → meets e c.samplingParams c.weightVersion = true) := by
  unfold checkCompletion meets
  by_cases hc : c.start.asInt = c.stop.asInt
  · rw [if_pos hc]
    exact ⟨fun _ hne => absurd hc hne, fun _ => rfl⟩
  · rw [if_neg hc]
    constructor
    · intro h _
      obtain ⟨_, hv, h⟩ := bind_ok h
      rw [guardE_ok] at hv
      rw [hv, Bool.true_and]
      cases he : e.sampling with
      | obj expected =>
        rw [he] at h
        exact guardE_ok.mp h
      | _ => rfl
    · intro h
      have hm := h hc
      rw [Bool.and_eq_true] at hm
      rw [hm.1]
      cases he : e.sampling with
      | obj expected =>
        rw [he] at hm
        exact guardE_ok.mpr hm.2
      | _ => rfl

theorem checkCompletions_iff {e : Expectation} : ∀ {cs : List TrainingCompletion},
    checkCompletions e cs = .ok () ↔ ∀ c ∈ cs, checkCompletion e c = .ok ()
  | [] => ⟨fun _ => nofun, fun _ => rfl⟩
  | c :: rest => by
      rw [List.forall_mem_cons]
      refine ⟨fun h => ?_, fun ⟨hc, hrest⟩ => ?_⟩
      · obtain ⟨_, hc, h⟩ := bind_ok h
        exact ⟨hc, checkCompletions_iff.mp h⟩
      · unfold checkCompletions
        rw [hc, ok_bind]
        exact checkCompletions_iff.mpr hrest

/-- A policy that `validate_sampling_overrides` accepts, or none. -/
def IsPolicy (py : PyText) : Json → Prop
  | .null => True
  | .obj fields => fields ≠ [] ∧ (fields.map Prod.fst).Nodup ∧
      ∃ sampling, validateSamplingOverrides py "expected_sampling" (.obj fields) = .ok sampling
  | _ => False

/-- Recorded parameters that equal a finite number are finite. -/
theorem get_finite {actual : Fields} (h : isSamplingParams (.obj actual) = true) {key : String}
    {v : Json} (hv : finite v = true) (he : (Fields.get actual key).pyEq v = true) :
    finite (Fields.get actual key) = true := by
  by_cases hhas : Fields.has actual key = true
  · exact List.all_eq_true.mp h _ (Json.entry_of_has hhas)
  · have hnull : Fields.get actual key = .null := Json.get_absent (by simpa using hhas)
    rw [hnull] at he
    rw [pyEq_null_left he] at hv
    cases hv

theorem checkSampled_iff {py : PyText} {place : String} {e : Expectation} {sampling : Option Fields}
    {turn : Fields} {u : RawTurn} (hp : IsPolicy py e.sampling)
    (hs : collectorSampling py e.sampling = .ok sampling) (hu : u.ReadFrom turn)
    (hsound : isSamplingParams u.sampling = true) :
    checkSampled py place sampling e.version turn = .ok () ↔
      meets e u.sampling u.weightVersion = true := by
  unfold checkSampled meets
  rw [hu.sampling, hu.weightVersion]
  cases hes : e.sampling with
  | null =>
    rw [hes] at hs
    cases hs
    simp only [Bool.and_true, guardE_ok]
  | obj fields =>
    rw [hes] at hp hs
    obtain ⟨hne, hn, sampling', hval⟩ := hp
    have hsampling : sampling = some (samplingOf fields) := by
      cases fields with
      | nil => exact absurd rfl hne
      | cons x l =>
        obtain ⟨v, hv, h⟩ := bind_ok hs
        cases h
        rw [(validateSamplingOverrides_iff.mp hv).2]
    subst hsampling
    obtain ⟨hkeys, -⟩ := validateSamplingOverrides_iff.mp hval
    cases hu' : u.sampling with
    | obj actual =>
      rw [hu'] at hsound
      have hiff : checkPolicy py place actual (samplingOf fields) = .ok () ↔
          (!mismatched (.obj actual) fields) = true := by
        rw [checkPolicy_iff]
        simp only [mismatched, Bool.not_eq_true', List.any_eq_false, Bool.not_eq_false]
        constructor
        · intro h x hx
          exact (h x ((mem_samplingOf hn fun e he => (hkeys e he).1).mpr hx)).2
        · intro h x hx
          have hx' := (mem_samplingOf hn fun e he => (hkeys e he).1).mp hx
          exact ⟨get_finite hsound (hkeys x hx').2.1 (h x hx'), h x hx'⟩
      simp only
      rw [Bool.and_eq_true, ← hiff]
      constructor
      · intro h
        obtain ⟨_, hpol, h⟩ := bind_ok h
        exact ⟨guardE_ok.mp h, hpol⟩
      · rintro ⟨hver, hpol⟩
        rw [hpol, ok_bind]
        exact guardE_ok.mpr hver
    | _ =>
      simp only [mismatched, Bool.not_true, Bool.and_false, error_bind, reduceCtorEq]
  | _ =>
    rw [hes] at hp
    cases hp

/-- **The loop of the collector**: every sampled turn of a selected agent is as expected. -/
theorem collectTurns_iff {py : PyText} {sid : Json} {selected : Option (List (Option String))}
    {e : Expectation} {sampling : Option Fields} (hp : IsPolicy py e.sampling)
    (hs : collectorSampling py e.sampling = .ok sampling) :
    ∀ {turns : List Json} {us : List RawTurn} (i : Nat), List.Forall₂ ReadAs turns us →
      (∀ u ∈ us, u.Sound) →
      (collectTurns py sid selected sampling e.version i turns = .ok () ↔
        ∀ u ∈ us, isSelected selected u.agent = true → u.completion ≠ [] →
          meets e u.sampling u.weightVersion = true)
  | [], _, _, .nil, _ => ⟨fun _ => nofun, fun _ => rfl⟩
  | _ :: turns, u :: us, i, .cons ⟨f, hf, hu⟩ hrest, hsound => by
      obtain ⟨hsu, hsound⟩ := List.forall_mem_cons.mp hsound
      have hturn : collectTurn py sid selected sampling e.version i (.obj f) = .ok () ↔
          (isSelected selected u.agent = true → u.completion ≠ [] →
            meets e u.sampling u.weightVersion = true) := by
        unfold collectTurn
        simp only [hu.agent, hu.completion]
        by_cases hsel : isSelected selected u.agent = true
        · simp only [hsel, Bool.not_true, Bool.false_eq_true, if_false, forall_const]
          cases hc : u.completion with
          | nil => simp
          | cons x l =>
            simp only [checkSampled_iff hp hs hu hsu.sampling, ne_eq, reduceCtorEq,
              not_false_eq_true, forall_const]
        · simp only [hsel, Bool.not_false, if_true]
          exact ⟨fun _ h => (by cases h), fun _ => trivial⟩
      rw [hf, List.forall_mem_cons, ← hturn]
      refine ⟨fun h => ?_, fun ⟨hhead, htail⟩ => ?_⟩
      · obtain ⟨_, hhead, h⟩ := bind_ok h
        exact ⟨hhead, (collectTurns_iff hp hs (i + 1) hrest hsound).mp h⟩
      · unfold collectTurns
        rw [hhead, ok_bind]
        exact (collectTurns_iff hp hs (i + 1) hrest hsound).mpr htail

/-! ## 4. The collector -/

theorem IsPolicy.collects {py : PyText} {v : Json} (h : IsPolicy py v) :
    ∃ sampling, collectorSampling py v = .ok sampling := by
  cases v with
  | null => exact ⟨none, rfl⟩
  | obj fields =>
    obtain ⟨hne, -, sampling, hs⟩ := h
    cases fields with
    | nil => exact absurd rfl hne
    | cons x l =>
      refine ⟨some sampling, ?_⟩
      unfold collectorSampling
      simp only [hs, ok_bind]
      rfl
  | _ => cases h

/-- An expected version, or none. -/
def IsVersion (v : Json) : Prop := v = .null ∨ ∃ s, v = .str s ∧ isBlank s = false

theorem IsVersion.collects {v : Json} (h : IsVersion v) : collectorVersion v = .ok () := by
  rcases h with rfl | ⟨s, rfl, hs⟩
  · rfl
  · have hne : (s != "") = true := by
      rw [bne_iff_ne]
      rintro rfl
      revert hs
      decide
    exact guardE_ok.mpr hne

section Verdicts

variable {py : PyText} {record : Json} {roles : Roles} {streams : List TrainingStream}
  {fields : Fields} {turns : List Json} {blobs : Fields} {us : List RawTurn} {st : StreamsState}
  {e : Expectation} {req : Bool}

theorem Accepted.sound : ∀ {us : List RawTurn} {t : Tally}, Accepted t us → ∀ u ∈ us, u.Sound
  | [], _, _ => nofun
  | _ :: _, _, ⟨hs, _, hus⟩ => List.forall_mem_cons.mpr ⟨hs, Accepted.sound hus⟩

/-- **The collector's verdict** on a record that converts. -/
theorem collector_iff (h : Conversion record roles false streams fields turns blobs us st)
    (hp : IsPolicy py e.sampling) (hv : IsVersion e.version) (agents : List (Option String)) :
    validateSessionRecord py record e.sampling e.version (some agents) false false req = .ok () ↔
      (req = true → Covered (some agents) (tallyTurns .empty us)
        (blobs.map fun x => (some x.1, x.2))) ∧
      ∀ u ∈ us, isSelected (some agents) u.agent = true → u.completion ≠ [] →
        meets e u.sampling u.weightVersion = true := by
  obtain ⟨sampling, hs⟩ := hp.collects
  have hstructure : validateRecordStructure (some agents) false req record = .ok () ↔
      (req = true → Covered (some agents) (tallyTurns .empty us)
        (blobs.map fun x => (some x.1, x.2))) := by
    rw [h.recordIs]
    simp only [validateRecordStructure, h.turnsAre, h.blobsAre, ok_bind,
      checkTurns_accepted (some agents) false 0 h.read h.accepted]
    rw [checkCaptures_iff]
    exact and_iff_right (checkCaptures_iff.mp h.captures).1
  have hturns := @collectTurns_iff py (Fields.get fields "session_id") (some agents) _ _ hp hs _ _ 0
    h.read h.accepted.sound
  rw [← hturns]
  unfold validateSessionRecord
  simp only [hs, hv.collects, ok_bind, Bool.false_or]
  cases req with
  | false =>
    rw [if_neg Bool.false_ne_true, h.recordIs]
    simp only [h.turnsAre]
    exact ⟨fun hc => ⟨fun hf => (by cases hf), hc⟩, fun hc => hc.2⟩
  | true =>
    rw [if_pos rfl, ← hstructure]
    constructor
    · intro hc
      obtain ⟨_, hrec, hc⟩ := bind_ok hc
      rw [h.recordIs] at hc
      simp only [h.turnsAre] at hc
      exact ⟨hrec, hc⟩
    · rintro ⟨hrec, hc⟩
      rw [hrec, ok_bind, h.recordIs]
      simp only [h.turnsAre]
      exact hc

/-! ## 5. The trainer -/

/-- The agents of the trained roles. -/
def agentsOf (roles : Roles) (trained : List String) : List (Option String) :=
  (roles.filter fun x => trained.contains x.2).map Prod.fst

/-- The trial a record's streams are returned as. -/
def trialOf (task : String) (sid : Json) (streams : List TrainingStream) : TrialResult where
  taskId := .str task
  slot := .int 0
  attempt := .int 0
  sessionId := sid
  streams := streams
  scores := .obj []
  error := .null
  cleanupError := .null

/-- One task with one slot of one attempt. -/
def allocationOf (task : String) (sid : Json) : Json := .obj [(task, .arr [.arr [sid]])]

theorem roleOf_mem : ∀ {roles : Roles} {a : Option String} {role : String},
    (roles.map Prod.fst).Nodup → (roleOf roles a = some role ↔ (a, role) ∈ roles)
  | [], _, _, _ => by simp [roleOf]
  | (b, r) :: rest, a, role, hn => by
      obtain ⟨hb, hn⟩ := List.nodup_cons.mp hn
      have ih : roleOf rest a = some role ↔ (a, role) ∈ rest := roleOf_mem hn
      unfold roleOf at ih ⊢
      rw [List.lookup_cons]
      by_cases hab : a = b
      · subst hab
        simp only [beq_self_eq_true, List.mem_cons, Prod.mk.injEq, true_and, Option.some.injEq]
        exact ⟨fun h => .inl h.symm, fun h => h.elim Eq.symm fun hm =>
          absurd (List.mem_map_of_mem hm : a ∈ rest.map Prod.fst) hb⟩
      · have hne : (a == b) = false := by simpa using hab
        simp only [hne, ih, List.mem_cons, Prod.mk.injEq, hab, false_and, false_or]

/-- An agent is selected where its role is trained. -/
theorem isSelected_agentsOf {trained : List String} (hn : (roles.map Prod.fst).Nodup)
    {a : Option String} {role : String} (hrole : roleOf roles a = some role) :
    isSelected (some (agentsOf roles trained)) a = trained.contains role := by
  have hmem := (roleOf_mem hn).mp hrole
  unfold isSelected agentsOf
  rw [Bool.eq_iff_iff]
  simp only [List.contains_iff_mem, List.mem_map, List.mem_filter, Prod.exists,
    exists_and_right, exists_eq_right]
  constructor
  · rintro ⟨r, hr, ht⟩
    rw [← (roleOf_mem hn).mpr hr |>.symm.trans hrole |> Option.some.inj]
    exact ht
  · intro ht
    exact ⟨role, hmem, ht⟩

/-- The streams of a conversion carry the identities they were built with. -/
theorem Conversion.identities (h : Conversion record roles req streams fields turns blobs us st) :
    streams.map TrainingStream.identity = st.streams.map TrainingStream.identity := by
  rw [h.built, List.map_map]
  exact List.map_congr_left fun _ _ => rfl

/-- A stream of a conversion is its agent's, under the registered role. -/
theorem Conversion.owned (h : Conversion record roles req streams fields turns blobs us st)
    {s : TrainingStream} (hs : s ∈ streams) :
    s.sessionId = Fields.get fields "session_id" ∧ ∃ a role, s.agentId = agentJson a ∧
      roleOf roles a = some role ∧ s.role = .str role ∧
      (tallyTurns .empty us).lengths.get? a ≠ none := by
  rw [h.built] at hs
  obtain ⟨x, hx, rfl⟩ := List.mem_map.mp hs
  exact h.follows.owned x hx

/-- The segments of a conversion are numbered through. -/
theorem Conversion.ranges (h : Conversion record roles req streams fields turns blobs us st)
    (a : Option (Option String)) :
    (segmentsOf streams a).Nodup ∧ isRange (segmentsOf streams a) = true := by
  rw [segmentsOf_congr h.identities]
  cases a with
  | none =>
    have hnil : segmentsOf st.streams none = [] := by
      unfold segmentsOf
      rw [List.map_eq_nil_iff, List.filter_eq_nil_iff]
      intro s hs
      obtain ⟨-, a, -, ha, -⟩ := h.follows.owned s hs
      unfold TrainingStream.identity
      rw [ha, agentOf_agentJson, decide_eq_true_eq]
      nofun
    rw [hnil]
    exact ⟨List.nodup_nil, isRange_iff.mpr .rfl⟩
  | some a =>
    rw [h.follows.numbered]
    refine ⟨List.nodup_range.map fun i j hij => Int.ofNat.inj (Option.some.inj hij), ?_⟩
    rw [isRange_iff, List.map_map, List.length_map, List.length_range]
    exact .rfl

/-- **The trainer's verdict** on the streams of a record: the trained ones are required. -/
theorem trainer_iff {py : PyText}
    (h : Conversion record roles false streams fields turns blobs us st) {trained : List String}
    (ht : ∀ role ∈ trained, role ∈ roles.map Prod.snd) (hp : IsPolicy py e.sampling)
    (hv : IsVersion e.version) {task : String} (htask : isBlank task = false) :
    validateTrainingResults [trialOf task (Fields.get fields "session_id") streams]
      (allocationOf task (Fields.get fields "session_id")) roles (some trained) e req = .ok () ↔
      ∀ s ∈ streams, s.trained trained = true →
        s.validate req = .ok () ∧ checkCompletions e s.completions = .ok () := by
  have hsel : trainedSelection roles (some trained) = .ok trained := by
    have hall : trained.all (roles.map Prod.snd).contains = true := by
      rw [List.all_eq_true]
      exact fun role hrole => by simpa using ht role hrole
    simp only [trainedSelection, hall, guardE, if_true, ok_bind]
    rfl
  constructor
  · intro hval
    obtain ⟨-, selected, hsel', -, -, -, a, -, -, hall, -⟩ := validateTrainingResults_iff.mp hval
    rw [hsel] at hsel'
    cases hsel'
    intro s hs htr
    have hok := (hall _ (List.mem_singleton.mpr rfl)).streams s hs
    have hvalid := hok.valid
    rw [htr, Bool.and_true] at hvalid
    exact ⟨hvalid, hok.policy htr⟩
  · intro hall
    obtain ⟨sid, hsid, hblank⟩ := checkName_iff.mp h.sessionOk
    -- a policy names settings only, so it is an expectation
    have hexpected : isExpectedSampling e.sampling = true := by
      cases hes : e.sampling with
      | null => rfl
      | obj l =>
        rw [hes] at hp
        obtain ⟨hne, -, sampling, hval⟩ := hp
        obtain ⟨hkeys, -⟩ := validateSamplingOverrides_iff.mp hval
        unfold isExpectedSampling
        rw [Bool.and_eq_true, Bool.not_eq_true', List.isEmpty_eq_false_iff, List.all_eq_true]
        refine ⟨hne, fun x hx => ?_⟩
        obtain ⟨hk, hf, -⟩ := hkeys x hx
        have hname : (x.1 != "") = true := by
          rw [bne_iff_ne]
          intro he
          rw [he] at hk
          revert hk
          decide
        rw [hname, hf]
        rfl
      | _ =>
        rw [hes] at hp
        cases hp
    -- the one task has one slot, and the session is its one attempt
    have halloc : allocateTasks ⟨∅, []⟩ [(task, .arr [.arr [Fields.get fields "session_id"]])] =
        .ok ⟨(∅ : Dict (String × Int) (List String)).set (task, 0) [sid], [sid]⟩ := by
      rw [hsid]
      simp only [allocateTasks, checkName, htask, guardE, Bool.not_false, if_true, ok_bind,
        allocateSlots, allocateAttempts, hblank, Json.asStr, Option.getD_some, List.contains_nil]
      rfl
    refine validateTrainingResults_iff.mpr ⟨h.rolesOk, trained, hsel, hexpected,
      checkOptionalName_iff.mpr hv, _, _, rfl, halloc, ?_, List.nodup_singleton _, ?_⟩
    · intro r hr
      rw [List.mem_singleton.mp hr]
      refine ⟨checkName_iff.mpr ⟨task, rfl, htask⟩, h.sessionOk, rfl,
        ⟨[sid], 0, sid, Dict.get?_set_self _ _ _, rfl, rfl, hsid⟩, rfl, rfl, fun s hs => ?_,
        identities_nodup fun a => (h.ranges a).1, fun a => (h.ranges a).2⟩
      obtain ⟨hsess, a, role, ha, hrole, hs', -⟩ := h.owned hs
      refine ⟨?_, by rw [hsess]; rfl, ?_, fun htr => (hall s hs htr).2⟩
      · -- what is not trained passed its validation in the conversion
        cases htr : s.trained trained with
        | true =>
          rw [Bool.and_true]
          exact (hall s hs htr).1
        | false =>
          rw [Bool.and_false]
          exact h.valid s hs
      · unfold TrainingStream.identity
        rw [ha, hs', agentOf_agentJson, Option.bind_some, hrole]
        simp [Json.asStr]
    · intro k hk
      have hkeys : ((∅ : Dict (String × Int) (List String)).set (task, 0) [sid]).keys =
          [(task, 0)] := by
        unfold Dict.keys
        rw [Dict.set_entries_of_none [sid] (Dict.get?_empty _)]
        rfl
      rw [hkeys] at hk
      exact hk

end Verdicts

/-! ## 6. One verdict -/

/-- The capture of an agent in a record. -/
theorem lookup_captures : ∀ (blobs : Fields) (a : Option String),
    (blobs.map fun x => (some x.1, x.2)).lookup a =
      a.bind fun name => if Fields.has blobs name then some (Fields.get blobs name) else none
  | [], a => by cases a <;> rfl
  | (k, v) :: rest, a => by
      rw [List.map_cons, List.lookup_cons, lookup_captures rest a]
      cases a with
      | none => rfl
      | some name =>
        by_cases hk : k = name
        · subst hk
          simp [Fields.has, Fields.get]
        · have hne : (some name == some k) = false := by simpa using fun he : name = k => hk he.symm
          simp only [hne, Option.bind_some, Fields.has, Fields.get, List.any_cons, hk,
            decide_false, Bool.false_or, if_false]
          rfl

/-- A capture of an agent, as the record and as its stream have it. -/
theorem blobRows_attached {blobs : Fields} {name : String} (h : Fields.has blobs name = true) :
    blobRows (blobs.map fun x => (some x.1, x.2)) (some name) =
      blobRows [(some name, Fields.get blobs name)] (some name) := by
  unfold blobRows
  rw [lookup_captures, Option.bind_some, if_pos h]
  simp

section Agreement

variable {record : Json} {roles : Roles} {streams : List TrainingStream} {fields : Fields}
  {turns : List Json} {blobs : Fields} {us : List RawTurn} {st : StreamsState} {e : Expectation}
  {trained : List String}

/-- A stream is trained where its agent is selected. -/
theorem Conversion.trained_iff (h : Conversion record roles false streams fields turns blobs us st)
    (hn : (roles.map Prod.fst).Nodup) {s : TrainingStream} (hs : s ∈ streams)
    {a : Option String} (ha : s.agentId = agentJson a) :
    s.trained trained = isSelected (some (agentsOf roles trained)) a := by
  obtain ⟨-, b, role, hb, hrole, hs', -⟩ := h.owned hs
  have hab : a = b := agentJson_inj (ha.symm.trans hb)
  rw [hab, isSelected_agentsOf hn hrole]
  unfold TrainingStream.trained
  rw [hs']

/-- **Coverage agrees**: the record covers the selected agents where every trained stream has a
    capture. -/
theorem coverage_agrees (h : Conversion record roles false streams fields turns blobs us st)
    (hn : (roles.map Prod.fst).Nodup) (htokens : ∀ s ∈ streams, s.tokens ≠ []) :
    Covered (some (agentsOf roles trained)) (tallyTurns .empty us)
        (blobs.map fun x => (some x.1, x.2)) ↔
      ∀ s ∈ streams, s.trained trained = true → s.validate true = .ok () := by
  have hf := h.follows
  have hopen : ∀ a n, (tallyTurns .empty us).lengths.get? a = some n → ∃ s ∈ streams,
      s.agentId = agentJson a ∧ s.tokens.length = n ∧
        s.routedExperts = a.elim .null blobs.get := fun a n hget => by
    obtain ⟨i, x, -, hx, hxa, hlen, -⟩ := hf.opened a n hget
    refine ⟨attachBlob blobs x, ?_, hxa, hlen, ?_⟩
    · rw [h.built]
      exact List.mem_map_of_mem (List.mem_iff_getElem?.mpr ⟨i, hx⟩)
    · unfold attachBlob
      rw [hxa]
      cases a <;> rfl
  constructor
  · intro hcov s hs htr
    refine (validate_required (h.valid s hs) (htokens s hs)).mpr ?_
    obtain ⟨-, a, role, ha, -, -, hknown⟩ := h.owned hs
    cases hget : (tallyTurns .empty us).lengths.get? a with
    | none => exact absurd hget hknown
    | some n =>
      obtain ⟨o, ho, -, hlen, -⟩ := hopen a n hget
      have hpos : n ≠ 0 := fun h0 => htokens o ho (List.eq_nil_of_length_eq_zero (hlen.trans h0))
      rw [h.trained_iff hn hs ha] at htr
      obtain ⟨-, rows, hrows, -⟩ := hcov a n hget htr hpos
      rw [h.built] at hs
      obtain ⟨x, hx, rfl⟩ := List.mem_map.mp hs
      have hxa : x.agentId = agentJson a := ha
      have hlookup := lookup_captures blobs a
      -- rows come from an entry of the blobs that is an object
      cases a with
      | none =>
        unfold blobRows at hrows
        rw [hlookup] at hrows
        cases hrows
      | some name =>
        have hhas : Fields.has blobs name = true := by
          by_contra hno
          unfold blobRows at hrows
          rw [hlookup, Option.bind_some, if_neg hno] at hrows
          cases hrows
        rw [blobRows_attached hhas] at hrows
        have hattached : (attachBlob blobs x).routedExperts = blobs.get name := by
          unfold attachBlob
          rw [hxa]
          rfl
        rw [hattached]
        cases hb : Fields.get blobs name with
        | null =>
          rw [hb] at hrows
          simp [blobRows] at hrows
        | _ => rfl
  · intro hall a n hget hsel hpos
    obtain ⟨s, hs, ha, hlen, hblob⟩ := hopen a n hget
    have hne : s.tokens ≠ [] := htokens s hs
    have htr : s.trained trained = true := by rw [h.trained_iff hn hs ha, hsel]
    have hnull := (validate_required (h.valid s hs) hne).mp (hall s hs htr)
    cases a with
    | none =>
      rw [hblob] at hnull
      cases hnull
    | some name =>
      have hattached : s.routedExperts = blobs.get name := hblob
      have hhas : Fields.has blobs name = true := by
        by_contra hno
        rw [hattached, Json.get_absent (by simpa using hno)] at hnull
        cases hnull
      have hagent : agentOf s.agentId = some (some name) := by rw [ha]; rfl
      obtain ⟨rows, hrows, heq⟩ := validate_covered (h.valid s hs) (by rw [hnull]; rfl) hne hagent
      have hcap : s.captures = [(some name, Fields.get blobs name)] := by
        unfold TrainingStream.captures
        rw [hagent, ← hattached]
        cases hs' : s.routedExperts with
        | null =>
          rw [hs'] at hnull
          cases hnull
        | _ => rfl
      refine ⟨hf.single name hhas, rows, ?_, by rw [← hlen]; exact heq⟩
      rw [blobRows_attached hhas, ← hcap]
      exact hrows

/-- **The policies agree**: every sampled turn of a selected agent is as expected where every
    sampled completion of a trained stream is. -/
theorem policy_agrees (h : Conversion record roles false streams fields turns blobs us st)
    (hn : (roles.map Prod.fst).Nodup) :
    (∀ u ∈ us, isSelected (some (agentsOf roles trained)) u.agent = true → u.completion ≠ [] →
      meets e u.sampling u.weightVersion = true) ↔
      ∀ s ∈ streams, s.trained trained = true → checkCompletions e s.completions = .ok () := by
  have hspan : ∀ {u : RawTurn} {n : Nat},
      (u.spanAt n).start.asInt ≠ (u.spanAt n).stop.asInt ↔ u.completion ≠ [] := fun {u n} => by
    unfold RawTurn.spanAt
    simp only [Json.asInt, ne_eq, Option.some.injEq, Int.natCast_inj]
    rw [← List.length_eq_zero_iff]
    omega
  constructor
  · intro hall s hs htr
    refine checkCompletions_iff.mpr fun c hc => checkCompletion_iff.mpr fun hne => ?_
    have hs' := hs
    rw [h.built] at hs'
    obtain ⟨x, hx, rfl⟩ := List.mem_map.mp hs'
    obtain ⟨u, hu, ha, n, rfl⟩ := h.follows.spanned x hx c hc
    rw [h.trained_iff hn hs ha] at htr
    exact hall u hu htr (hspan.mp hne)
  · intro hall u hu hsel hne
    obtain ⟨x, hx, ha, c, hc, n, rfl⟩ := h.follows.recorded u hu
    have hs : attachBlob blobs x ∈ streams := by
      rw [h.built]
      exact List.mem_map_of_mem hx
    have htr : (attachBlob blobs x).trained trained = true := by
      rw [h.trained_iff hn hs ha, hsel]
    have hcheck := checkCompletions_iff.mp (hall _ hs htr) _ hc
    exact checkCompletion_iff.mp hcheck (hspan.mpr hne)

end Agreement

/-- `record["session_id"]`. -/
def sessionIdOf : Json → Json
  | .obj fields => Fields.get fields "session_id"
  | _ => .null

/-- **The collector and the trainer agree** on a record and the streams it converts to. -/
theorem checks_agree (py : PyText) {record : Json} {roles : Roles} {streams : List TrainingStream}
    (h : recordToStreams record roles true false = .ok streams)
    (hn : (roles.map Prod.fst).Nodup) (htokens : ∀ s ∈ streams, s.tokens ≠ [])
    {trained : List String} (ht : ∀ role ∈ trained, role ∈ roles.map Prod.snd) {e : Expectation}
    (hp : IsPolicy py e.sampling) (hv : IsVersion e.version) {task : String}
    (htask : isBlank task = false) (req : Bool) :
    validateSessionRecord py record e.sampling e.version (some (agentsOf roles trained)) false false
        req = .ok () ↔
      validateTrainingResults [trialOf task (sessionIdOf record) streams]
        (allocationOf task (sessionIdOf record)) roles (some trained) e req = .ok () := by
  obtain ⟨fields, turns, blobs, us, st, hc⟩ := conversion_iff.mp h
  have hsid : sessionIdOf record = Fields.get fields "session_id" := by
    rw [hc.recordIs]
    rfl
  rw [hsid, collector_iff hc hp hv, trainer_iff hc ht hp hv htask, policy_agrees hc hn]
  constructor
  · rintro ⟨hcov, hpol⟩ s hs htr
    refine ⟨?_, hpol s hs htr⟩
    cases req with
    | false => exact hc.valid s hs
    | true => exact (coverage_agrees hc hn htokens).mp (hcov rfl) s hs htr
  · intro hall
    refine ⟨fun hreq => (coverage_agrees hc hn htokens).mpr fun s hs htr => ?_,
      fun s hs htr => (hall s hs htr).2⟩
    rw [← hreq]
    exact (hall s hs htr).1

/-- The fields of a turn that sampled under the policy. -/
def onPolicyTurn (prompt completion : List Json) (logprob : Rat) : Fields :=
  [("prompt_token_ids", .arr prompt), ("completion_token_ids", .arr completion),
    ("completion_logprobs", .arr [.float (.finite logprob)]), ("weight_version", onePolicy.version),
    ("sampling_params", onePolicy.sampling), ("finish_reason", .str "stop")]

/-- A solver with two conversations, the first with a turn that sampled nothing, and a judge in
    between. -/
def twoAgentsRecord : Json :=
  .obj [("session_id", .str "s"), ("turns", .arr
    [.obj (onPolicyTurn [.int 1] [.int 2] (-1)),
      .obj [("agent_id", .str "critic"), ("prompt_token_ids", .arr [.int 1]),
        ("completion_token_ids", .arr [.int 9]), ("completion_logprobs", .arr [.float (.finite (-3))]),
        ("weight_version", .str "v0"), ("finish_reason", .str "stop")],
      .obj [("prompt_token_ids", .arr [.int 3]), ("completion_token_ids", .arr []),
        ("completion_logprobs", .arr [])],
      .obj (onPolicyTurn [.int 4] [.int 5] (-2)),
      .obj (("new_conversation", .bool true) :: onPolicyTurn [.int 6] [.int 7] (-1))])]

theorem checks_agree_twoAgents :
    recordToStreams twoAgentsRecord twoRoles true false =
      .ok [firstSegment "s", judgeStream "s", secondSegment "s"] ∧
    (validateSessionRecord ⟨fun _ => "", fun _ => ""⟩ twoAgentsRecord onePolicy.sampling
        onePolicy.version (some (agentsOf twoRoles ["solver"])) false false false = .ok () ↔
      validateTrainingResults
        [trialOf "t" (sessionIdOf twoAgentsRecord)
          [firstSegment "s", judgeStream "s", secondSegment "s"]]
        (allocationOf "t" (sessionIdOf twoAgentsRecord)) twoRoles (some ["solver"]) onePolicy
        false = .ok ()) := by
  have h : recordToStreams twoAgentsRecord twoRoles true false =
      .ok [firstSegment "s", judgeStream "s", secondSegment "s"] := rfl
  have hp : IsPolicy ⟨fun _ => "", fun _ => ""⟩ onePolicy.sampling :=
    ⟨List.cons_ne_nil _ _, List.nodup_singleton _, [("temperature", .float (.finite 1))], rfl⟩
  refine ⟨h, checks_agree _ h (by decide) ?_ (by decide) hp (.inr ⟨"v1", rfl, by decide⟩)
    (by decide) false⟩
  simp only [List.forall_mem_cons]
  exact ⟨List.cons_ne_nil _ _, List.cons_ne_nil _ _, List.cons_ne_nil _ _, nofun⟩

end RolloutProxy
