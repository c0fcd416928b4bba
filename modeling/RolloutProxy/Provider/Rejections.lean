/-
  File:      RolloutProxy/Provider/Rejections.lean
  Subject:   THE MEMORY OF REJECTED TURNS: `_rejected_repeat` and `_note_engine_rejection`
             (rollout_base.py) over every run of one stream's calls.

  * `Verdict`: what becomes of an engine call, or a release; `Watched` logs the verdicts beside the
    calls, the newest first. What other streams and the runtime controls do is left open, up to
    this stream's entry.
  * `inARow`: the rejections of a request that end the log, failures without a verdict left out.
  * `Remembers`: the one entry of the stream is the row its log ends with (`remembers_note`).
  * `stored_rejection_exact`: a stored rejection is raised for the requests with
    `maxRejectedGenerations` rejections in a row, and no row gets longer.
-/
import RolloutProxy.JsonEquality
import RolloutProxy.Recorder.Redelivery
import RolloutProxy.TokenStream.Continuation
import RolloutProxy.Provider.Release

namespace RolloutProxy

/-! ## 1. Equal messages -/

theorem dicts_keysOnce {l : List Fields} (h : Dicts l) : Json.KeysOnceItems (l.map .obj) := by
  induction l with
  | nil => trivial
  | cons m l ih =>
    obtain ⟨hm, hl⟩ := List.forall_mem_cons.mp h
    exact ⟨hm, ih hl⟩

theorem sameMessages_symm {l m : List Fields} (hl : Dicts l) (hm : Dicts m)
    (h : sameMessages l m = true) : sameMessages m l = true :=
  Json.pyEqItems_symm _ _ (dicts_keysOnce hl) (dicts_keysOnce hm) h

theorem sameMessages_trans {l m n : List Fields} (h : sameMessages l m = true)
    (h' : sameMessages m n = true) : sameMessages l n = true :=
  Json.pyEqItems_trans _ _ _ h h'

/-! ## 2. The log of a stream -/

/-- What became of an engine call, or of the stream. -/
inductive Verdict where
  /-- a deterministic 4xx for a request with these messages and this effort -/
  | rejected (messages : List Fields) (error : PyError) (effort : Option String)
  /-- any other exception -/
  | failed
  | answered
  | released

namespace Verdict

/-- A failure says nothing about the request. -/
def counts : Verdict → Bool
  | failed => false
  | _ => true

/-- The request with these normalized messages and this effort was rejected. -/
def rejects (messages : List Fields) (effort : Option String) : Verdict → Bool
  | rejected ms _ effort' =>
    match normalizeMessages ms with
    | .ok normalized => sameMessages messages normalized && effort = effort'
    | .error _ => false
  | _ => false

/-- A rejection is a deterministic one, of messages that normalize to dicts. -/
def Proper : Verdict → Prop
  | rejected ms e _ => deterministicRejection e = true ∧
      ∃ normalized, normalizeMessages ms = .ok normalized ∧ Dicts normalized
  | _ => True

theorem rejects_rejected {messages ms n : List Fields} {e : PyError}
    {effort effort' : Option String} (hn : normalizeMessages ms = .ok n) :
    (rejected ms e effort').rejects messages effort = true ↔
      sameMessages messages n = true ∧ effort = effort' := by
  simp only [rejects, hn, Bool.and_eq_true, decide_eq_true_eq]

/-- Equal requests are rejected alike. -/
theorem rejects_congr {v : Verdict} {l m : List Fields} {effort : Option String} (hv : v.Proper)
    (hl : Dicts l) (hm : Dicts m) (h : sameMessages l m = true) :
    v.rejects l effort = v.rejects m effort := by
  cases v with
  | rejected ms e effort' =>
    obtain ⟨-, n, hn, hd⟩ := hv
    rw [Bool.eq_iff_iff, rejects_rejected hn, rejects_rejected hn]
    exact ⟨fun ⟨hs, he⟩ => ⟨sameMessages_trans (sameMessages_symm hl hm h) hs, he⟩,
      fun ⟨hs, he⟩ => ⟨sameMessages_trans h hs, he⟩⟩
  | _ => rfl

/-- One rejection is of one request. -/
theorem rejects_same {v : Verdict} {l m : List Fields} {effort effort' : Option String}
    (hv : v.Proper) (hm : Dicts m) (h : v.rejects l effort = true)
    (h' : v.rejects m effort' = true) : sameMessages l m = true ∧ effort = effort' := by
  cases v with
  | rejected ms e effort'' =>
    obtain ⟨-, n, hn, hd⟩ := hv
    obtain ⟨hs, he⟩ := (rejects_rejected hn).mp h
    obtain ⟨hs', he'⟩ := (rejects_rejected hn).mp h'
    exact ⟨sameMessages_trans hs (sameMessages_symm hm hd hs'), he.trans he'.symm⟩
  | _ => cases h

end Verdict

/-- The log without the failures. -/
def decisive (log : List Verdict) : List Verdict := log.filter Verdict.counts

/-- The rejections of one request that end the log: no answered call, no rejection of another
    request and no release stands between them. -/
def inARow (log : List Verdict) (messages : List Fields) (effort : Option String) : Nat :=
  ((decisive log).takeWhile (Verdict.rejects messages effort)).length

theorem inARow_cons {v : Verdict} (hv : v.counts = true) (log : List Verdict)
    (messages : List Fields) (effort : Option String) :
    inARow (v :: log) messages effort =
      if v.rejects messages effort then inARow log messages effort + 1 else 0 := by
  unfold inARow decisive
  rw [List.filter_cons_of_pos hv, List.takeWhile_cons]
  split <;> rfl

theorem inARow_congr {log : List Verdict} {l m : List Fields} {effort : Option String}
    (hlog : ∀ v ∈ log, v.Proper) (hl : Dicts l) (hm : Dicts m) (h : sameMessages l m = true) :
    inARow log l effort = inARow log m effort := by
  induction log with
  | nil => rfl
  | cons v log ih =>
    obtain ⟨hv, hrest⟩ := List.forall_mem_cons.mp hlog
    cases hc : v.counts with
    | false =>
      cases v with
      | failed => exact ih hrest
      | _ => cases hc
    | true =>
      rw [inARow_cons hc, inARow_cons hc, Verdict.rejects_congr hv hl hm h, ih hrest]

/-- A row that is not empty ends in a rejection of its request. -/
theorem row_head {log : List Verdict} {messages : List Fields} {effort : Option String}
    (h : 0 < inARow log messages effort) :
    ∃ v rest, decisive log = v :: rest ∧ v.rejects messages effort = true := by
  unfold inARow at h
  cases hd : decisive log with
  | nil =>
    rw [hd] at h
    cases h
  | cons v rest =>
    refine ⟨v, rest, rfl, ?_⟩
    by_contra hv
    rw [hd, List.takeWhile_cons, if_neg hv] at h
    cases h

/-! ## 3. The entry and the log -/

/-- The entry of a stream is the row its log ends with. -/
def Remembers (log : List Verdict) : Option RejectedTurn → Prop
  | none => ∀ messages effort, inARow log messages effort = 0
  | some entry => Dicts entry.messages ∧ 0 < entry.attempts ∧
      entry.attempts = inARow log entry.messages entry.reasoningEffort ∧
      ∃ ms rest, decisive log = .rejected ms entry.error entry.reasoningEffort :: rest

section Memory

variable {log : List Verdict} {entry : RejectedTurn} {messages : List Fields}
  {effort : Option String}

/-- Only the remembered request has a row, and it is as long as the entry says. -/
theorem Remembers.row (h : Remembers log (some entry)) (hlog : ∀ v ∈ log, v.Proper)
    (hd : Dicts messages) (hrow : 0 < inARow log messages effort) :
    sameMessages messages entry.messages = true ∧ effort = entry.reasoningEffort ∧
      inARow log messages effort = entry.attempts := by
  obtain ⟨hent, hpos, hatt, -⟩ := h
  obtain ⟨v, rest, hv, hrej⟩ := row_head hrow
  obtain ⟨v', rest', hv', hrej'⟩ := row_head (hatt ▸ hpos)
  rw [hv] at hv'
  cases hv'
  have hmem : v ∈ log := List.mem_of_mem_filter (hv ▸ List.mem_cons_self : v ∈ decisive log)
  obtain ⟨hs, rfl⟩ := Verdict.rejects_same (hlog v hmem) hent hrej hrej'
  exact ⟨hs, rfl, by rw [hatt, inARow_congr hlog hd hent hs]⟩

/-- **A stored rejection is raised exactly for the requests rejected often enough in a row.** -/
theorem rejectedRepeat_iff {p : Provider} {sid : String}
    (h : Remembers log (p.rejectedTurns.get? sid)) (hlog : ∀ v ∈ log, v.Proper)
    (hd : Dicts messages) :
    (∃ e, p.rejectedRepeat sid messages effort = .ok (some e)) ↔
      ∃ normalized, normalizeMessages messages = .ok normalized ∧
        maxRejectedGenerations ≤ inARow log normalized effort := by
  unfold Provider.rejectedRepeat
  cases hget : p.rejectedTurns.get? sid with
  | none =>
    rw [hget] at h
    refine ⟨fun ⟨e, he⟩ => (by cases he), fun ⟨n, _, hrow⟩ => ?_⟩
    rw [h n effort] at hrow
    cases hrow
  | some entry =>
    rw [hget] at h
    have hkey : ∀ {n}, normalizeMessages messages = .ok n →
        maxRejectedGenerations ≤ inARow log n effort →
          sameMessages n entry.messages = true ∧ effort = entry.reasoningEffort ∧
            maxRejectedGenerations ≤ entry.attempts := fun {n} hn hrow => by
      obtain ⟨hs, he, hatt⟩ := h.row hlog (normalizeFrom_dicts hn hd)
        (Nat.lt_of_lt_of_le (by decide : 0 < maxRejectedGenerations) hrow)
      exact ⟨hs, he, hatt ▸ hrow⟩
    simp only
    constructor
    · rintro ⟨e, he⟩
      split at he
      · cases he
      · next hlt =>
        split at he
        · cases he
        · next n hn =>
          split at he
          · cases he
          · next hsame =>
            simp only [Bool.or_eq_true, Bool.not_eq_true', decide_eq_true_eq, not_or,
              Bool.not_eq_false, not_not] at hsame
            refine ⟨n, hn, ?_⟩
            rw [hsame.2, inARow_congr hlog (normalizeFrom_dicts hn hd) h.1 hsame.1, ← h.2.2.1]
            exact Nat.not_lt.mp hlt
    · rintro ⟨n, hn, hrow⟩
      obtain ⟨hs, he, hatt⟩ := hkey hn hrow
      refine ⟨entry.error, ?_⟩
      rw [if_neg (Nat.not_lt.mpr hatt), hn]
      simp only [hs, he, Bool.not_true, ne_eq, not_true_eq_false, decide_false, Bool.or_false]
      rfl

/-- The error raised again is the last rejection's. -/
theorem rejectedRepeat_error {p : Provider} {sid : String} {e : PyError}
    (h : Remembers log (p.rejectedTurns.get? sid))
    (he : p.rejectedRepeat sid messages effort = .ok (some e)) :
    ∃ ms rest, decisive log = .rejected ms e effort :: rest := by
  unfold Provider.rejectedRepeat at he
  split at he
  · cases he
  · next entry hget =>
    rw [hget] at h
    split at he
    · cases he
    · split at he
      · cases he
      · split at he
        · cases he
        · next hsame =>
          simp only [Bool.or_eq_true, Bool.not_eq_true', decide_eq_true_eq, not_or,
            Bool.not_eq_false, not_not] at hsame
          cases he
          rw [hsame.2]
          exact h.2.2.2

/-- An answered call, or a release, ends every row. -/
theorem remembers_nothing {v : Verdict} (hc : v.counts = true)
    (hv : ∀ messages effort, v.rejects messages effort = false) : Remembers (v :: log) none :=
  fun messages effort => by rw [inARow_cons hc, hv]; rfl

/-- **A rejection is noted**: it prolongs the row of its request, or begins one. -/
theorem remembers_note {p : Provider} {sid : String} {normalized : List Fields} {e : PyError}
    (h : Remembers log (p.rejectedTurns.get? sid)) (hlog : ∀ v ∈ log, v.Proper)
    (hdet : deterministicRejection e = true) (hn : normalizeMessages messages = .ok normalized)
    (hd : Dicts normalized) :
    Remembers (.rejected messages e effort :: log)
      ((p.noteEngineRejection sid messages e effort).2.rejectedTurns.get? sid) := by
  have hcons : ∀ k, inARow (.rejected messages e effort :: log) k effort =
      if sameMessages k normalized then inARow log k effort + 1 else 0 := fun k => by
    rw [inARow_cons rfl]
    simp only [Verdict.rejects, hn, decide_true, Bool.and_true]
  have hfresh : inARow log normalized effort = 0 →
      Remembers (.rejected messages e effort :: log) (some ⟨normalized, e, 1, effort⟩) :=
    fun h0 => ⟨hd, Nat.one_pos, by rw [hcons, if_pos (sameMessages_self hd), h0],
      messages, decisive log, rfl⟩
  unfold Provider.noteEngineRejection
  rw [hdet]
  simp only [Bool.not_true, Bool.false_eq_true, if_false, hn, Dict.get?_set_self]
  cases hget : p.rejectedTurns.get? sid with
  | none =>
    rw [hget] at h
    exact hfresh (h _ _)
  | some old =>
    rw [hget] at h
    simp only
    split
    · next hsame =>
      simp only [Bool.and_eq_true, decide_eq_true_eq] at hsame
      obtain ⟨hs, rfl⟩ := hsame
      refine ⟨h.1, Nat.succ_pos _, ?_, messages, decisive log, rfl⟩
      rw [hcons, if_pos hs, h.2.2.1]
    · next hsame =>
      refine hfresh (Nat.eq_zero_of_not_pos fun hrow => hsame ?_)
      obtain ⟨hs, he, -⟩ := h.row hlog hd hrow
      simp only [Bool.and_eq_true, decide_eq_true_eq]
      exact ⟨sameMessages_symm hd h.1 hs, he.symm⟩

end Memory

/-! ## 4. What a piece of a call does to the memory -/

section Pieces

variable {cfg : ProviderConfig} {p q : Provider} {sid : String} {g : Generation} {i : Awaited}
  {n : Next}

/-- Only an engine's answer touches the memory. -/
theorem resume_rejectedTurns (h : p.resume cfg sid g i = some (n, q))
    (hs : ∀ c, g.stage ≠ .calling c) : q.rejectedTurns = p.rejectedTurns := by
  unfold Provider.resume at h
  cases i with
  | nothing =>
    simp only at h
    split at h
    · cases h
      rfl
    · next pinned _ =>
      have hq : (p.afterPin cfg sid g pinned).2.rejectedTurns = p.rejectedTurns := by
        have hpin : ∀ pin, (p.setPin sid pin).rejectedTurns = p.rejectedTurns := by
          rintro (_ | _) <;> rfl
        unfold Provider.afterPin
        split
        · rfl
        · split
          · exact hpin _
          · exact hpin _
      rwa [Option.some.inj h] at hq
    · cases h
      rfl
    · cases h
      rfl
    · cases h
      rfl
    · next r effort _ =>
      have hq : (p.afterBuild cfg sid g r effort).2.rejectedTurns = p.rejectedTurns := by
        have hb : (p.buildPrompt r sid g.args.messages g.args.tools effort).2.rejectedTurns =
          p.rejectedTurns := rfl
        unfold Provider.afterBuild
        split
        · next hx => rw [hx] at hb; exact hb
        · next hx =>
          rw [hx] at hb
          split <;> exact hb
      rwa [Option.some.inj h] at hq
    · next c s _ =>
      have hq : (p.afterDecode c s).2.rejectedTurns = p.rejectedTurns := by
        unfold Provider.afterDecode Provider.commitSampled
        split
        · rfl
        · simp only
          split
          · rfl
          · split <;> rfl
      rwa [Option.some.inj h] at hq
    · cases h
  | replays gone =>
    simp only at h
    split at h
    · next r effort found _ =>
      have hq : (p.afterLookup sid g r effort found gone).2.rejectedTurns = p.rejectedTurns := by
        unfold Provider.afterLookup
        split <;> rfl
      rwa [Option.some.inj h] at hq
    · cases h
  | answer a =>
    simp only at h
    cases h

/-- A call of the engine is for the request, whose messages normalize. -/
theorem resume_calling {c : Pending} (h : p.resume cfg sid g i = some (.awaits (.calling c), q)) :
    ∃ r effort, g.stage = .building r effort ∧ c.sid = sid ∧ c.messages = g.args.messages ∧
      c.effort = effort ∧ ∃ normalized, normalizeMessages g.args.messages = .ok normalized := by
  unfold Provider.resume at h
  cases i with
  | nothing =>
    simp only at h
    split at h
    · cases h
    · unfold Provider.afterPin at h
      repeat' split at h
      all_goals cases h
    · cases h
    · cases h
    · unfold Provider.afterMiss at h
      repeat' split at h
      all_goals cases h
    · next r effort hg =>
      have hb := Option.some.inj h
      unfold Provider.afterBuild at hb
      split at hb
      · cases hb
      · next ids p' hx =>
        split at hb
        · cases hb
        · next c' hc =>
          cases hb
          have hnorm := TokenStreamManager.buildPrompt_ok (congrArg Prod.fst hx)
          obtain ⟨normalized, hn, -⟩ := hnorm
          unfold Provider.callFor at hc
          split at hc
          · cases hc
          · cases hc
            exact ⟨r, effort, hg, rfl, rfl, rfl, normalized, hn⟩
    · unfold Provider.afterDecode at h
      repeat' split at h
      all_goals cases h
    · cases h
  | replays gone =>
    simp only at h
    split at h
    · unfold Provider.afterLookup at h
      repeat' split at h
      all_goals cases h
    · cases h
  | answer a =>
    simp only at h
    split at h
    · unfold Provider.afterAnswer at h
      repeat' split at h
      all_goals cases h
    · cases h

/-- A prompt is built where no stored rejection is raised. -/
theorem resume_building {r : ResolvedModel} {effort : Option String}
    (h : p.resume cfg sid g i = some (.awaits (.building r effort), q)) :
    g.stage = .missed r effort ∧ p.rejectedRepeat sid g.args.messages effort = .ok none := by
  unfold Provider.resume at h
  cases i with
  | nothing =>
    simp only at h
    split at h
    · cases h
    · unfold Provider.afterPin at h
      repeat' split at h
      all_goals cases h
    · cases h
    · cases h
    · next r' effort' hg =>
      unfold Provider.afterMiss at h
      split at h
      · cases h
      · cases h
      · next hn =>
        cases h
        exact ⟨hg, hn⟩
    · unfold Provider.afterBuild at h
      repeat' split at h
      all_goals cases h
    · unfold Provider.afterDecode at h
      repeat' split at h
      all_goals cases h
    · cases h
  | replays gone =>
    simp only at h
    split at h
    · unfold Provider.afterLookup at h
      repeat' split at h
      all_goals cases h
    · cases h
  | answer a =>
    simp only at h
    split at h
    · unfold Provider.afterAnswer at h
      repeat' split at h
      all_goals cases h
    · cases h

/-- A call that awaits the engine goes on with its answer alone. -/
theorem resume_answer {c : Pending} (h : p.resume cfg sid g i = some (n, q))
    (hg : g.stage = .calling c) : ∃ a, i = .answer a ∧ p.afterAnswer cfg c a = (n, q) := by
  unfold Provider.resume at h
  cases i with
  | answer a =>
    rw [hg] at h
    exact ⟨a, rfl, Option.some.inj h⟩
  | _ =>
    rw [hg] at h
    cases h

/-- What the engine's answer is to the memory. -/
def verdictOf (cfg : ProviderConfig) (c : Pending) (a : EngineAnswer) : Verdict :=
  match cfg.transport.dialect.callEngine cfg.py cfg.npLoad c.call a with
  | .ok _ => .answered
  | .error e => if deterministicRejection e then .rejected c.messages e c.effort else .failed

/-- **An answer and the memory**: a rejection is noted, a transient failure leaves the memory as it
    was, and any call the engine answers clears it. -/
theorem afterAnswer_memory {c : Pending} {a : EngineAnswer} (h : p.afterAnswer cfg c a = (n, q)) :
    (∃ e, verdictOf cfg c a = .rejected c.messages e c.effort ∧ deterministicRejection e = true ∧
      q = (p.noteEngineRejection c.sid c.messages e c.effort).2) ∨
    (verdictOf cfg c a = .failed ∧ q = p) ∨
    (verdictOf cfg c a = .answered ∧ q = p.clearRejection c.sid) := by
  unfold Provider.afterAnswer Provider.acceptAnswer at h
  unfold verdictOf
  cases hcall : cfg.transport.dialect.callEngine cfg.py cfg.npLoad c.call a with
  | error e =>
    rw [hcall] at h
    cases h
    by_cases hdet : deterministicRejection e = true
    · exact .inl ⟨e, by simp only [hdet, if_true], hdet, rfl⟩
    · refine .inr (.inl ⟨by simp only [hdet]; rfl, ?_⟩)
      unfold Provider.noteEngineRejection
      rw [Bool.not_eq_true] at hdet
      simp only [hdet, Bool.not_false, if_true]
  | ok out =>
    rw [hcall] at h
    refine .inr (.inr ⟨rfl, ?_⟩)
    simp only at h
    split at h
    · next hx =>
      split at hx
      · cases hx
        cases h
        rfl
      · cases hx
    · next hx =>
      split at hx
      · cases hx
      · cases hx
        cases h
        rfl

/-- **A call of another stream** leaves the stream's entry. -/
theorem resume_elsewhere {other : String} (hne : sid ≠ other)
    (h : p.resume cfg other g i = some (n, q)) (hc : ∀ c, g.stage = .calling c → c.sid = other) :
    q.rejectedTurns.get? sid = p.rejectedTurns.get? sid := by
  by_cases hs : ∃ c, g.stage = .calling c
  · obtain ⟨c, hg⟩ := hs
    obtain ⟨a, rfl, ha⟩ := resume_answer h hg
    rcases afterAnswer_memory ha with ⟨e, -, -, rfl⟩ | ⟨-, rfl⟩ | ⟨-, rfl⟩
    · rw [hc c hg]
      unfold Provider.noteEngineRejection
      split
      · rfl
      · split
        · rfl
        · exact Dict.get?_set_ne _ _ hne
    · rfl
    · rw [hc c hg]
      exact Dict.get?_erase_ne _ hne
  · rw [resume_rejectedTurns h fun c hg => hs ⟨c, hg⟩]

end Pieces

/-! ## 5. Runs -/

/-- A stream's calls, the verdicts so far with the newest first, and whether every release so far
    found no call of the stream under way. -/
structure Watched where
  calls : StreamCalls
  log : List Verdict
  orderly : Bool

inductive WatchEvent where
  | call (e : CallEvent)
  /-- anything the proxy does for other streams or for its runtime controls -/
  | other (q : Provider)

namespace Watched

variable (cfg : ProviderConfig) (sid : String) (s : Watched)

def start (p : Provider) : Watched := ⟨.start p, [], true⟩

/-- No call of the stream is under way. -/
def idle : Bool := (List.range s.calls.started).all fun t => (s.calls.calls t).isNone

/-- The verdict of a piece of a call. -/
def noted (t : Nat) (i : Awaited) : List Verdict :=
  match s.calls.calls t, i with
  | some g, .answer a =>
    match g.stage with
    | .calling c => [verdictOf cfg c a]
    | _ => []
  | _, _ => []

/-- The verdict an event brings. -/
def verdicts : CallEvent → List Verdict
  | .begin _ => []
  | .resume t i => s.noted cfg t i
  | .release => [.released]

/-- A release is orderly where no call is under way. -/
def keepsOrder : CallEvent → Bool
  | .release => s.idle
  | _ => true

def step : WatchEvent → Option Watched
  | .call e => (s.calls.step cfg sid e).map fun calls =>
      { calls := calls
        log := s.verdicts cfg e ++ s.log
        orderly := s.orderly && s.keepsOrder e }
  | .other q => some { s with calls := { s.calls with provider := q } }

/-- A request's messages are dicts; what happens elsewhere leaves the stream's entry. -/
def Admissible (sid : String) (s : Watched) : WatchEvent → Watched → Prop
  | .call (.begin a), _ => Dicts a.messages
  | .call _, _ => True
  | .other q, _ => q.rejectedTurns.get? sid = s.calls.provider.rejectedTurns.get? sid

/-- The entry is the log's, and a call of the engine is for messages that normalize. -/
structure Watching (sid : String) (s : Watched) : Prop where
  memory : Remembers s.log (s.calls.provider.rejectedTurns.get? sid)
  proper : ∀ v ∈ s.log, v.Proper
  dicts : ∀ t g, s.calls.calls t = some g → Dicts g.args.messages
  calling : ∀ t g c, s.calls.calls t = some g → g.stage = .calling c → c.sid = sid ∧
    c.messages = g.args.messages ∧ ∃ normalized, normalizeMessages g.args.messages = .ok normalized

variable {cfg sid s} {t : Nat} {g : Generation} {i : Awaited}

theorem noted_calling {c : Pending} (hg : s.calls.calls t = some g) (hc : g.stage = .calling c)
    (a : EngineAnswer) : s.noted cfg t (.answer a) = [verdictOf cfg c a] := by
  unfold noted
  simp only [hg, hc]

theorem noted_other (hg : s.calls.calls t = some g) (hs : ∀ c, g.stage ≠ .calling c) :
    s.noted cfg t i = [] := by
  unfold noted
  rw [hg]
  cases i with
  | answer a => simp only
  | _ => rfl

theorem Watching.start {p : Provider} (h : p.rejectedTurns.get? sid = none) :
    Watching sid (start p) where
  memory := by
    change Remembers [] (p.rejectedTurns.get? sid)
    rw [h]
    exact fun _ _ => rfl
  proper := fun _ hv => absurd hv List.not_mem_nil
  dicts := fun _ g (hg : none = some g) => by cases hg
  calling := fun _ g _ (hg : none = some g) => by cases hg

/-- **The memory follows the log** over one piece of a call. -/
theorem Watching.after_memory (h : Watching sid s) (hg : s.calls.calls t = some g)
    {n : Next} {q : Provider} (hx : s.calls.provider.resume cfg sid g i = some (n, q)) :
    Remembers (s.noted cfg t i ++ s.log) (q.rejectedTurns.get? sid) ∧
      ∀ v ∈ s.noted cfg t i ++ s.log, v.Proper := by
  by_cases hs : ∃ c, g.stage = .calling c
  · obtain ⟨c, hc⟩ := hs
    obtain ⟨hsid, hmsg, n', hn⟩ := h.calling t g c hg hc
    obtain ⟨a, rfl, ha⟩ := resume_answer hx hc
    rw [noted_calling hg hc]
    have hd : Dicts n' := normalizeFrom_dicts hn (h.dicts t g hg)
    rcases afterAnswer_memory ha with ⟨e, hv, hdet, rfl⟩ | ⟨hv, rfl⟩ | ⟨hv, rfl⟩
    · rw [hv, hsid]
      rw [← hmsg] at hn
      exact ⟨remembers_note h.memory h.proper hdet hn hd,
        List.forall_mem_cons.mpr ⟨⟨hdet, n', hn, hd⟩, h.proper⟩⟩
    · rw [hv]
      exact ⟨h.memory, List.forall_mem_cons.mpr ⟨trivial, h.proper⟩⟩
    · rw [hv, hsid]
      refine ⟨?_, List.forall_mem_cons.mpr ⟨trivial, h.proper⟩⟩
      change Remembers _ ((s.calls.provider.rejectedTurns.erase sid).get? sid)
      rw [Dict.get?_erase_self]
      exact remembers_nothing rfl fun _ _ => rfl
  · rw [noted_other hg fun c hc => hs ⟨c, hc⟩, resume_rejectedTurns hx fun c hc => hs ⟨c, hc⟩]
    exact ⟨h.memory, h.proper⟩

theorem begin_rejectedTurns (w : StreamCalls) (a : GenerateArgs) :
    (w.begin sid a).provider.rejectedTurns = w.provider.rejectedTurns := by
  unfold StreamCalls.begin
  split
  · rfl
  · exact Provider.sessionLock_rejectedTurns sid

/-- A call of the run behind `begin` was there, or waits for its lock. -/
theorem begin_calls {w : StreamCalls} {a : GenerateArgs}
    (hg : (w.begin sid a).calls t = some g) :
    w.calls t = some g ∨ g = ⟨a, w.releases, .waiting⟩ := by
  unfold StreamCalls.begin at hg
  split at hg
  · exact .inl hg
  · simp only [Function.update_apply] at hg
    split at hg
    · exact .inr (Option.some.inj hg).symm
    · exact .inl hg

theorem Watching.step (h : Watching sid s) {e : WatchEvent} {s' : Watched}
    (hs : s.step cfg sid e = some s') (hp : Admissible sid s e s') : Watching sid s' := by
  cases e with
  | other q =>
    cases hs
    exact ⟨by change Remembers s.log (q.rejectedTurns.get? sid); rw [hp]; exact h.memory,
      h.proper, h.dicts, h.calling⟩
  | call e =>
    obtain ⟨w', hw, rfl⟩ := Option.map_eq_some_iff.mp hs
    rcases StreamCalls.step_cases hw with ⟨a, rfl, -, rfl⟩ | ⟨t, g, rfl, hg, hwait, -, rfl⟩ |
      ⟨t, i, g, ⟨n, q⟩, rfl, hg, -, hx, rfl⟩ | ⟨rfl, rfl⟩
    · refine ⟨by rw [begin_rejectedTurns]; exact h.memory, h.proper, fun t' g' hg' => ?_,
        fun t' g' c hg' hc => ?_⟩
      · rcases begin_calls hg' with hold | rfl
        · exact h.dicts t' g' hold
        · exact hp
      · rcases begin_calls hg' with hold | rfl
        · exact h.calling t' g' c hold hc
        · cases hc
    · have hn : s.verdicts cfg (.resume t .nothing) = [] :=
        noted_other hg fun c hc => by rw [hc] at hwait; cases hwait
      refine ⟨by rw [hn]; exact h.memory, by rw [hn]; exact h.proper, fun t' g' hg' => ?_,
        fun t' g' c hg' hc => ?_⟩
      all_goals
        simp only [StreamCalls.acquire, Function.update_apply] at hg'
        split at hg'
      · cases hg'
        exact h.dicts t g hg
      · exact h.dicts t' g' hg'
      · cases hg'
        cases hc
      · exact h.calling t' g' c hg' hc
    · -- a verdict is noted where the memory takes it
      obtain ⟨hmem, hprop⟩ := h.after_memory hg hx
      cases n with
      | awaits stage =>
        refine ⟨hmem, hprop, fun t' g' hg' => ?_, fun t' g' c hg' hc => ?_⟩
        all_goals
          simp only [StreamCalls.after, Function.update_apply] at hg'
          split at hg'
        · cases hg'
          exact h.dicts t g hg
        · exact h.dicts t' g' hg'
        · cases hg'
          simp only at hc
          subst hc
          obtain ⟨_, _, -, hsid, hmsg, -, hnorm⟩ := resume_calling hx
          exact ⟨hsid, hmsg, hnorm⟩
        · exact h.calling t' g' c hg' hc
      | ended result =>
        refine ⟨hmem, hprop, fun t' g' hg' => ?_, fun t' g' c hg' hc => ?_⟩
        all_goals
          simp only [StreamCalls.after, Function.update_apply] at hg'
          split at hg'
        · cases hg'
        · exact h.dicts t' g' hg'
        · cases hg'
        · exact h.calling t' g' c hg' hc
    · -- the release forgets the stream's rejections
      refine ⟨?_, List.forall_mem_cons.mpr ⟨trivial, h.proper⟩, h.dicts, h.calling⟩
      change Remembers (.released :: s.log) ((s.calls.provider.rejectedTurns.erase sid).get? sid)
      rw [Dict.get?_erase_self]
      exact remembers_nothing rfl fun _ _ => rfl

/-! ## 6. No row is longer than allowed -/

end Watched

/-- A call behind the check of the stored rejection, up to its answer, with its effort. -/
def Stage.asked : Stage → Option (Option String)
  | .building _ effort => some effort
  | .calling c => some c.effort
  | _ => none

namespace Watched

variable {cfg : ProviderConfig} {sid : String} {s s' : Watched}

/-- Rows are at most as long as allowed, and shorter where the request is under way again. -/
structure Bounded (s : Watched) : Prop where
  short : ∀ messages effort, Dicts messages →
    inARow s.log messages effort ≤ maxRejectedGenerations
  fresh : ∀ t g, s.calls.calls t = some g → g.lock = s.calls.releases
  asked : ∀ t g effort normalized, s.calls.calls t = some g → g.stage.asked = some effort →
    normalizeMessages g.args.messages = .ok normalized →
      inARow s.log normalized effort < maxRejectedGenerations

theorem Bounded.start (p : Provider) : Bounded (start p) where
  short := fun _ _ _ => Nat.zero_le _
  fresh := fun _ g (hg : none = some g) => by cases hg
  asked := fun _ g _ _ (hg : none = some g) => by cases hg

/-- Calls of one release hold their lock one at a time. -/
theorem Bounded.alone (h : Bounded s) (hl : s.calls.Locked) {t t' : Nat} {g g' : Generation}
    (hg : s.calls.calls t = some g) (hw : g.stage.isWaiting = false)
    (hg' : s.calls.calls t' = some g') (hw' : g'.stage.isWaiting = false) : t' = t := by
  have hh := hl.holder t g hg hw
  have hh' := hl.holder t' g' hg' hw'
  rw [h.fresh t g hg] at hh
  rw [h.fresh t' g' hg', hh] at hh'
  exact (Option.some.inj hh').symm

theorem asked_not_waiting {stage : Stage} {effort : Option String}
    (h : stage.asked = some effort) : stage.isWaiting = false := by
  cases stage <;> first | rfl | cases h

/-- **Rows stay short** over one piece of a call: a rejection prolongs a row that was shorter. -/
theorem Bounded.after_short (h : Bounded s) (hi : Watching sid s) {t : Nat} {g : Generation}
    {i : Awaited} (hg : s.calls.calls t = some g) {n : Next} {q : Provider}
    (hx : s.calls.provider.resume cfg sid g i = some (n, q)) {messages : List Fields}
    {effort : Option String} (hd : Dicts messages) :
    inARow (s.noted cfg t i ++ s.log) messages effort ≤ maxRejectedGenerations := by
  by_cases hs : ∃ c, g.stage = .calling c
  · obtain ⟨c, hc⟩ := hs
    obtain ⟨-, hmsg, k, hk⟩ := hi.calling t g c hg hc
    obtain ⟨a, rfl, ha⟩ := resume_answer hx hc
    rw [noted_calling hg hc]
    rcases afterAnswer_memory ha with ⟨e, hv, -, -⟩ | ⟨hv, -⟩ | ⟨hv, -⟩
    · rw [hv, List.singleton_append, inARow_cons rfl]
      split
      · next hrej =>
        obtain ⟨hs, rfl⟩ := (Verdict.rejects_rejected (hmsg ▸ hk)).mp hrej
        have hlt := h.asked t g c.effort k hg (by rw [hc]; rfl) hk
        rw [← inARow_congr hi.proper hd (normalizeFrom_dicts hk (hi.dicts t g hg)) hs] at hlt
        exact hlt
      · exact Nat.zero_le _
    · rw [hv]
      exact h.short messages effort hd
    · rw [hv, List.singleton_append, inARow_cons rfl]
      exact Nat.zero_le _
  · rw [noted_other hg fun c hc => hs ⟨c, hc⟩]
    exact h.short messages effort hd

/-- A call comes behind the check where its row is short, and stays there while it is. -/
theorem Bounded.after_asked (h : Bounded s) (hi : Watching sid s) {t : Nat} {g : Generation}
    {i : Awaited} (hg : s.calls.calls t = some g) {stage : Stage} {q : Provider}
    (hx : s.calls.provider.resume cfg sid g i = some (.awaits stage, q)) {effort : Option String}
    {normalized : List Fields} (ha : stage.asked = some effort)
    (hn : normalizeMessages g.args.messages = .ok normalized) :
    inARow (s.noted cfg t i ++ s.log) normalized effort < maxRejectedGenerations := by
  cases stage with
  | building r effort' =>
    cases ha
    obtain ⟨hstage, hrep⟩ := resume_building hx
    rw [noted_other hg fun c hc => by rw [hstage] at hc; cases hc]
    by_contra hrow
    obtain ⟨e, he⟩ := (rejectedRepeat_iff hi.memory hi.proper (hi.dicts t g hg)).mpr
      ⟨normalized, hn, Nat.not_lt.mp hrow⟩
    rw [hrep] at he
    cases he
  | calling c =>
    cases ha
    obtain ⟨r, effort', hstage, -, -, rfl, -⟩ := resume_calling hx
    rw [noted_other hg fun c hc => by rw [hstage] at hc; cases hc]
    exact h.asked t g c.effort normalized hg (by rw [hstage]; rfl) hn
  | _ => cases ha

/-- No call is under way in an idle stream. -/
theorem idle_calls (hl : s.calls.Locked) (h : s.idle = true) (t : Nat) :
    s.calls.calls t = none := by
  by_cases ht : t < s.calls.started
  · exact Option.isNone_iff_eq_none.mp (List.all_eq_true.mp h t (List.mem_range.mpr ht))
  · exact hl.begun t (Nat.not_lt.mp ht)

theorem Bounded.step (h : Bounded s) (hi : Watching sid s) (hl : s.calls.Locked) {e : WatchEvent}
    (hs : s.step cfg sid e = some s') (ho : s'.orderly = true) : Bounded s' := by
  cases e with
  | other q =>
    cases hs
    exact ⟨h.short, h.fresh, h.asked⟩
  | call e =>
    obtain ⟨w', hw, rfl⟩ := Option.map_eq_some_iff.mp hs
    rcases StreamCalls.step_cases hw with ⟨a, rfl, -, rfl⟩ | ⟨t, g, rfl, hg, hwait, -, rfl⟩ |
      ⟨t, i, g, ⟨n, q⟩, rfl, hg, hwait, hx, rfl⟩ | ⟨rfl, rfl⟩
    · have hrel : (s.calls.begin sid a).releases = s.calls.releases := by
        unfold StreamCalls.begin
        split <;> rfl
      refine ⟨h.short, fun t' g' hg' => ?_, fun t' g' effort k hg' ha hk => ?_⟩
      · rw [hrel]
        rcases begin_calls hg' with hold | rfl
        · exact h.fresh t' g' hold
        · rfl
      · rcases begin_calls hg' with hold | rfl
        · exact h.asked t' g' effort k hold ha hk
        · cases ha
    · -- a call that takes the lock notes no verdict
      have hn : s.verdicts cfg (.resume t .nothing) = [] :=
        noted_other hg fun c hc => by rw [hc] at hwait; cases hwait
      refine ⟨by rw [hn]; exact h.short, fun t' g' hg' => ?_, fun t' g' effort k hg' ha hk => ?_⟩
      all_goals
        simp only [StreamCalls.acquire, Function.update_apply] at hg'
        split at hg'
      · cases hg'
        exact h.fresh t g hg
      · exact h.fresh t' g' hg'
      · cases hg'
        cases ha
      · rw [hn]
        exact h.asked t' g' effort k hg' ha hk
    · -- a second call behind the check would hold the same lock
      have hother : ∀ t' g' effort k, t' ≠ t → s.calls.calls t' = some g' →
          g'.stage.asked = some effort → normalizeMessages g'.args.messages = .ok k →
            inARow (s.noted cfg t i ++ s.log) k effort < maxRejectedGenerations :=
        fun t' g' effort k hne hg' ha _ =>
          absurd (h.alone hl hg hwait hg' (asked_not_waiting ha)) hne
      cases n with
      | awaits stage =>
        refine ⟨fun m f hd => h.after_short hi hg hx hd, fun t' g' hg' => ?_,
          fun t' g' effort k hg' ha hk => ?_⟩
        all_goals
          simp only [StreamCalls.after, Function.update_apply] at hg'
          split at hg'
        · cases hg'
          exact h.fresh t g hg
        · exact h.fresh t' g' hg'
        · cases hg'
          exact h.after_asked hi hg hx ha hk
        · next hne => exact hother t' g' effort k hne hg' ha hk
      | ended result =>
        refine ⟨fun m f hd => h.after_short hi hg hx hd, fun t' g' hg' => ?_,
          fun t' g' effort k hg' ha hk => ?_⟩
        all_goals
          simp only [StreamCalls.after, Function.update_apply] at hg'
          split at hg'
        · cases hg'
        · exact h.fresh t' g' hg'
        · cases hg'
        · next hne => exact hother t' g' effort k hne hg' ha hk
    · -- a release empties the log, and no call is under way
      simp only [keepsOrder, Bool.and_eq_true] at ho
      have hnone := idle_calls hl ho.2
      refine ⟨fun m f _ => Nat.zero_le _, fun t g hg => ?_, fun t g _ _ hg => ?_⟩
      all_goals
        have hg' : s.calls.calls t = some g := hg
        rw [hnone t] at hg'
        cases hg'

/-! ## 7. The memory over every run -/

/-- Every reachable state follows its log; while the releases are orderly its rows are short. -/
theorem watched_run {p : Provider} (h : p.rejectedTurns.get? sid = none)
    (run : Steps (step cfg sid) (Admissible sid) (start p) s) :
    Watching sid s ∧ s.calls.Locked ∧ (s.orderly = true → Bounded s) := by
  refine Steps.inv (I := fun s => Watching sid s ∧ s.calls.Locked ∧
    (s.orderly = true → Bounded s)) run
    ⟨.start h, .start p, fun _ => .start p⟩ fun s e s' ⟨hi, hl, hb⟩ hs hp => ?_
  have ho : s'.orderly = true → s.orderly = true := fun ho => by
    cases e with
    | other q =>
      cases hs
      exact ho
    | call e =>
      obtain ⟨_, _, rfl⟩ := Option.map_eq_some_iff.mp hs
      exact (Bool.and_eq_true_iff.mp ho).1
  refine ⟨hi.step hs hp, ?_, fun ho' => (hb (ho ho')).step hi hl hs ho'⟩
  cases e with
  | other q =>
    cases hs
    exact ⟨hl.holder, hl.lock, hl.begun, hl.unmade, hl.returned⟩
  | call e =>
    obtain ⟨_, hw, rfl⟩ := Option.map_eq_some_iff.mp hs
    exact hl.step hw

/-- The request repeats the committed turn of a found state. -/
def RepeatsTurn (found : Option SessionState) (messages : List Fields) : Prop :=
  ∃ st turn normalized, found = some st ∧ st.lastTurn = some turn ∧
    normalizeMessages messages = .ok normalized ∧ sameMessages normalized st.messages = true

/-- A found state whose turn is repeated is served, or the repeat is refused by the proxy. -/
theorem retained_turn {p q : Provider} {g : Generation} {r : ResolvedModel}
    {effort : Option String} {found : Option SessionState} {gone : Nat} {n : Next}
    (hx : p.afterLookup sid g r effort found gone = (n, q))
    (h : RepeatsTurn found g.args.messages) :
    (∃ turn, n = .awaits (.serving r turn)) ∨
      ∃ e, n = .ended (.error e) ∧ deterministicRejection e = false := by
  obtain ⟨st, turn, normalized, rfl, ht, hn, hs⟩ := h
  have hrep : TokenStreamManager.repeatedTurn (some st) g.args.messages effort =
      (ManagerConfig.checkReasoningEffort st effort).map fun _ => some (st, turn) := by
    unfold TokenStreamManager.repeatedTurn
    simp only [ht, hn, hs, Bool.not_true, Bool.false_eq_true, if_false]
  unfold Provider.afterLookup at hx
  -- the turn is repeated, so it is served from the stream, or refused for its effort or its replays
  split at hx
  · next e m hserve =>
    cases hx
    refine .inr ⟨e, rfl, ?_⟩
    unfold TokenStreamManager.serveFound at hserve
    rw [hrep] at hserve
    unfold ManagerConfig.checkReasoningEffort at hserve
    split at hserve
    · next e' he =>
      cases hserve
      obtain ⟨_, hcheck⟩ : ∃ x, e = .tokenStream x := by
        split at he <;> cases he
        exact ⟨_, rfl⟩
      rw [hcheck]
      rfl
    · cases hserve
    · split at hserve
      · split at hserve
        · cases hserve
        · split at hserve
          · next hspend =>
            cases hserve
            unfold TokenStreamManager.spendReplay at hspend
            split at hspend
            · cases hspend
              rfl
            · cases hspend
          · cases hserve
      · split at hserve
        · cases hserve
          rfl
        · cases hserve
  · next m hserve =>
    unfold TokenStreamManager.serveFound at hserve
    rw [hrep] at hserve
    cases hcheck : ManagerConfig.checkReasoningEffort st effort with
    | error e =>
      rw [hcheck] at hserve
      cases hserve
    | ok u =>
      rw [hcheck] at hserve
      simp only [Except.map] at hserve
      split at hserve
      · next hheld =>
        split at hserve
        · next hgone =>
          unfold TokenStreamManager.holdsTurn at hheld
          rw [hgone] at hheld
          cases hheld
        · split at hserve <;> cases hserve
      · split at hserve <;> cases hserve
  · cases hx
    exact .inl ⟨_, rfl⟩

theorem served_error {r : ResolvedModel} {turn : ReplayedTurn} {e : PyError}
    (h : Provider.served r turn = .error e) : deterministicRejection e = false := by
  unfold Provider.served at h
  split at h
  · next e' he =>
    cases h
    unfold ResolvedModel.decode at he
    cases hd : r.tokenizer.decode turn.completionIds with
    | error x =>
      rw [hd] at he
      cases he
      rfl
    | ok x =>
      rw [hd] at he
      cases he
  · cases h

/-- When a stored rejection is raised, and what leaves the memory as it is. -/
structure FailsFast (cfg : ProviderConfig) (sid : String) (s : Watched) : Prop where
  /-- a call at the check meets a stored rejection where its request was rejected often enough in
      a row, and only there -/
  exact : ∀ t g r effort, s.calls.calls t = some g → g.stage = .missed r effort →
    ((∃ e, s.calls.provider.rejectedRepeat sid g.args.messages effort = .ok (some e)) ↔
      ∃ normalized, normalizeMessages g.args.messages = .ok normalized ∧
        maxRejectedGenerations ≤ inARow s.log normalized effort)
  /-- the call ends there, with the error of the last rejection -/
  raised : ∀ t g r effort e, s.calls.calls t = some g → g.stage = .missed r effort →
    s.calls.provider.rejectedRepeat sid g.args.messages effort = .ok (some e) →
      s.calls.provider.resume cfg sid g .nothing =
        some (.ended (.error e), s.calls.provider) ∧
      deterministicRejection e = true ∧
      ∃ ms rest, decisive s.log = .rejected ms e effort :: rest
  /-- a failure without a verdict changes nothing -/
  transient : ∀ c a, verdictOf cfg c a = .failed →
    (s.calls.provider.afterAnswer cfg c a).2 = s.calls.provider
  /-- a request that repeats the retained turn is served, or refused by the proxy itself -/
  retained : ∀ t g r effort found gone n q, s.calls.calls t = some g →
    g.stage = .looked r effort found → RepeatsTurn found g.args.messages →
      s.calls.provider.resume cfg sid g (.replays gone) = some (n, q) →
        (∃ turn, n = .awaits (.serving r turn)) ∨
          ∃ e, n = .ended (.error e) ∧ deterministicRejection e = false
  served : ∀ t g r turn n q, s.calls.calls t = some g → g.stage = .serving r turn →
    s.calls.provider.resume cfg sid g .nothing = some (n, q) →
      ∃ result, n = .ended result ∧
        ∀ e, result = .error e → deterministicRejection e = false

/-- The engine is called at most as often as allowed: no row is longer, and a request the engine
    is called with has a shorter one. -/
structure CallsFew (s : Watched) : Prop where
  rows : ∀ messages effort, Dicts messages →
    inARow s.log messages effort ≤ maxRejectedGenerations
  called : ∀ t g c, s.calls.calls t = some g → g.stage = .calling c →
    ∃ normalized, normalizeMessages c.messages = .ok normalized ∧
      inARow s.log normalized c.effort < maxRejectedGenerations

/-- **Rejected turns fail fast, exactly when they should**, in every run of a stream's calls from a
    provider that remembers nothing of it. -/
theorem stored_rejection_exact (cfg : ProviderConfig) (sid : String) {p : Provider}
    (h : p.rejectedTurns.get? sid = none) {s : Watched}
    (run : Steps (step cfg sid) (Admissible sid) (start p) s) :
    FailsFast cfg sid s ∧ (s.orderly = true → CallsFew s) := by
  obtain ⟨hi, -, hb⟩ := watched_run h run
  refine ⟨⟨fun t g r effort hg _ => rejectedRepeat_iff hi.memory hi.proper (hi.dicts t g hg),
    fun t g r effort e hg hst he => ?_, fun c a hv => ?_,
    fun t g r effort found gone n q _ hst hrep hx => ?_, fun t g r turn n q _ hst hx => ?_⟩,
    fun ho => ⟨(hb ho).short, fun t g c hg hst => ?_⟩⟩
  · obtain ⟨ms, rest, hlog⟩ := rejectedRepeat_error hi.memory he
    have hmem : Verdict.rejected ms e effort ∈ s.log :=
      List.mem_of_mem_filter (hlog ▸ List.mem_cons_self : _ ∈ decisive s.log)
    refine ⟨?_, (hi.proper _ hmem).1, ms, rest, hlog⟩
    unfold Provider.resume
    rw [hst]
    simp only [Provider.afterMiss, he]
  · rcases afterAnswer_memory (rfl : s.calls.provider.afterAnswer cfg c a = (_, _)) with
      ⟨e, hr, -, -⟩ | ⟨-, hq⟩ | ⟨ha, -⟩
    · rw [hv] at hr
      cases hr
    · exact hq
    · rw [hv] at ha
      cases ha
  · unfold Provider.resume at hx
    rw [hst] at hx
    exact retained_turn (Option.some.inj hx) hrep
  · unfold Provider.resume at hx
    rw [hst] at hx
    cases hx
    exact ⟨_, rfl, fun e he => served_error he⟩
  · obtain ⟨-, hmsg, k, hk⟩ := hi.calling t g c hg hst
    exact ⟨k, hmsg ▸ hk, (hb ho).asked t g c.effort k hg (by rw [hst]; rfl) hk⟩

/-! ## 8. A request rejected twice -/

/-- A call up to its engine, and an answer. -/
def rejectedCall (t : Nat) (a : EngineAnswer) : List WatchEvent :=
  [.call (.begin repeatedArgs), .call (.resume t .nothing), .call (.resume t .nothing),
    .call (.resume t .nothing), .call (.resume t .nothing), .call (.resume t (.replays 0)),
    .call (.resume t .nothing), .call (.resume t .nothing), .call (.resume t (.answer a))]

theorem rejectedCall_admissible {t : Nat} {a : EngineAnswer} {e : WatchEvent} {s u : Watched}
    (h : e ∈ rejectedCall t a) : Admissible "s-a" s e u := by
  unfold rejectedCall at h
  rcases List.mem_cons.mp h with rfl | h
  · intro m hm
    rw [List.mem_singleton.mp hm]
    exact ⟨by decide, trivial, trivial, trivial⟩
  · simp only [List.mem_cons, List.not_mem_nil, or_false] at h
    rcases h with rfl | rfl | rfl | rfl | rfl | rfl | rfl | rfl <;> exact True.intro

/-- A rejection, a failure, a second rejection; the fourth call stands at the check. -/
def rejectedTwice : List WatchEvent :=
  rejectedCall 0 (.raised (.httpStatus 400 "")) ++ rejectedCall 1 (.raised (.httpStatus 503 "")) ++
    rejectedCall 2 (.raised (.httpStatus 422 "")) ++
    (rejectedCall 3 (.raised (.httpStatus 400 ""))).take 6

/-- What the fourth call meets in a state. -/
def meets (s : Watched) : Option (Option Nat) :=
  (s.calls.calls 3).bind fun g =>
    match g.stage, s.calls.provider.rejectedRepeat "s-a" g.args.messages none with
    | .missed _ _, .ok (some (.httpStatus status _)) => some (some status)
    | .missed _ _, .ok none => some none
    | _, _ => none

theorem stored_rejection_exact_twice :
    ∃ s, exec (step silentConfig "s-a") (fun _ _ _ => true) (start .empty) rejectedTwice = some s ∧
      meets s = some (some 422) ∧ s.orderly = true ∧
      FailsFast silentConfig "s-a" s ∧ CallsFew s := by
  have hrun : (exec (step silentConfig "s-a") (fun _ _ _ => true) (start .empty)
      rejectedTwice).map (fun s => (meets s, s.orderly)) = some (some (some 422), true) := by
    decide +kernel
  obtain ⟨s, hs, hmeets⟩ := Option.map_eq_some_iff.mp hrun
  simp only [Prod.mk.injEq] at hmeets
  have run : Steps (step silentConfig "s-a") (Admissible "s-a") (start .empty) s := by
    refine exec_steps_forall hs fun e he s t => ?_
    unfold rejectedTwice at he
    rcases List.mem_append.mp he with he | he
    · rcases List.mem_append.mp he with he | he
      · rcases List.mem_append.mp he with he | he <;> exact rejectedCall_admissible he
      · exact rejectedCall_admissible he
    · exact rejectedCall_admissible (List.mem_of_mem_take he)
  obtain ⟨hfast, hfew⟩ := stored_rejection_exact silentConfig "s-a"
    (Dict.get?_empty "s-a" : Provider.empty.rejectedTurns.get? "s-a" = none) run
  exact ⟨s, hs, hmeets.1, hmeets.2, hfast, hfew hmeets.2⟩

end Watched

end RolloutProxy
