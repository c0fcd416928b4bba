/-
  File:      RolloutProxy/Training/Batch.lean
  Subject:   WHAT A VALIDATED BATCH IS: `validate_training_results` (training.py) read back from its
             verdict.

  * `checkStreams_iff`, `checkTrials_iff`: the loops accept what is sound item by item (`StreamOk`,
    `TrialOk`) and unrepeated as a whole.
  * `allocateTasks_ok`: the allocation is the slots of the map in its order (`slotsOf`).
  * `sampled_spanned`: a mask of 1 lies in a completion span.
  * `validated_batch`: a validated batch is complete, unmixed and on-policy; in any order
    (`Reordered`) the verdict is the same.
-/
import RolloutProxy.Training.Results
import Mathlib.Data.List.Perm.Basic

namespace RolloutProxy

/-! ## 1. The streams of one result -/

/-- What is asked of each stream by itself. -/
structure StreamOk (roles : Roles) (selected : List String) (e : Expectation)
    (requireRoutedExperts : Bool) (sid : Json) (s : TrainingStream) : Prop where
  valid : s.validate (requireRoutedExperts && s.trained selected) = .ok ()
  session : s.sessionId.asStr = sid.asStr
  registered : ((s.identity.1.bind (roleOf roles)).isSome &&
    s.identity.1.bind (roleOf roles) == s.role.asStr) = true
  policy : s.trained selected = true → checkCompletions e s.completions = .ok ()

/-- One more stream. -/
def Identities.add (ids : Identities) (s : TrainingStream) : Identities where
  seen := s.identity :: ids.seen
  segments := ids.segments.set s.identity.1
    ((ids.segments.get? s.identity.1).getD [] ++ [s.identity.2])

/-- The segment indices of an agent's streams. -/
def segmentsOf (streams : List TrainingStream) (agent : Option (Option String)) :
    List (Option Int) :=
  (streams.filter fun s => s.identity.1 = agent).map fun s => s.identity.2

section Streams

variable {roles : Roles} {selected : List String} {e : Expectation} {req : Bool} {sid : Json}

theorem checkStream_iff {ids ids' : Identities} {s : TrainingStream} :
    checkStream roles selected e req sid ids s = .ok ids' ↔
      StreamOk roles selected e req sid s ∧ s.identity ∉ ids.seen ∧ ids' = ids.add s := by
  constructor
  · intro h
    unfold checkStream at h
    obtain ⟨_, hvalid, h⟩ := bind_ok h
    obtain ⟨_, hsession, h⟩ := bind_ok h
    obtain ⟨_, hrole, h⟩ := bind_ok h
    rw [guardE_ok, Bool.and_eq_true, Bool.not_eq_true', beq_iff_eq] at hsession
    rw [guardE_ok] at hrole
    have hfresh : s.identity ∉ ids.seen := by simpa using hsession.2
    split at h
    · next ht =>
      obtain ⟨_, hpolicy, h⟩ := bind_ok h
      cases h
      exact ⟨⟨hvalid, hsession.1, hrole, fun _ => hpolicy⟩, hfresh, rfl⟩
    · next ht =>
      cases h
      exact ⟨⟨hvalid, hsession.1, hrole, fun h => absurd h ht⟩, hfresh, rfl⟩
  · rintro ⟨hs, hfresh, rfl⟩
    have hseen : (s.sessionId.asStr == sid.asStr && !ids.seen.contains s.identity) = true := by
      rw [hs.session]
      simpa using hfresh
    unfold checkStream
    simp only [hs.valid, ok_bind, guardE, hseen, hs.registered, if_true]
    cases ht : s.trained selected with
    | true =>
      rw [if_pos rfl, hs.policy ht]
      rfl
    | false => rfl

/-- **The streams of a result** pass one by one, with no identity twice. -/
theorem checkStreams_iff : ∀ {streams : List TrainingStream} {ids ids' : Identities},
    checkStreams roles selected e req sid ids streams = .ok ids' ↔
      (∀ s ∈ streams, StreamOk roles selected e req sid s) ∧
      (streams.map TrainingStream.identity).Nodup ∧
      (∀ s ∈ streams, s.identity ∉ ids.seen) ∧ ids' = streams.foldl Identities.add ids
  | [], ids, ids' => by
      constructor
      · intro h
        cases h
        exact ⟨nofun, List.nodup_nil, nofun, rfl⟩
      · rintro ⟨-, -, -, rfl⟩
        rfl
  | s :: rest, ids, ids' => by
      have hseen : ∀ x, x ∉ (ids.add s).seen ↔ x ≠ s.identity ∧ x ∉ ids.seen := fun x => by
        simp [Identities.add]
      constructor
      · intro h
        obtain ⟨ids₁, hs, h⟩ := bind_ok h
        obtain ⟨hok, hfresh, rfl⟩ := checkStream_iff.mp hs
        obtain ⟨hall, hnodup, hrest, rfl⟩ := checkStreams_iff.mp h
        refine ⟨List.forall_mem_cons.mpr ⟨hok, hall⟩, ?_,
          List.forall_mem_cons.mpr ⟨hfresh, fun x hx => ((hseen _).mp (hrest x hx)).2⟩, rfl⟩
        rw [List.map_cons, List.nodup_cons]
        refine ⟨fun hmem => ?_, hnodup⟩
        obtain ⟨x, hx, he⟩ := List.mem_map.mp hmem
        exact ((hseen _).mp (hrest x hx)).1 he
      · rintro ⟨hall, hnodup, hfresh, rfl⟩
        rw [List.map_cons, List.nodup_cons] at hnodup
        obtain ⟨hok, hall⟩ := List.forall_mem_cons.mp hall
        obtain ⟨hs, hrest⟩ := List.forall_mem_cons.mp hfresh
        rw [checkStreams, checkStream_iff.mpr ⟨hok, hs, rfl⟩, ok_bind]
        exact checkStreams_iff.mpr ⟨hall, hnodup.2, fun x hx => (hseen _).mpr
          ⟨fun he => hnodup.1 (he ▸ List.mem_map_of_mem hx), hrest x hx⟩, rfl⟩

/-- The segments gathered over the streams, agent by agent. -/
theorem add_segments (agent : Option (Option String)) :
    ∀ (streams : List TrainingStream) (ids : Identities),
      ((streams.foldl Identities.add ids).segments.get? agent).getD [] =
        (ids.segments.get? agent).getD [] ++ segmentsOf streams agent
  | [], ids => by simp [segmentsOf]
  | s :: rest, ids => by
      rw [List.foldl_cons, add_segments agent rest]
      unfold segmentsOf Identities.add
      rw [Dict.get?_set]
      by_cases ha : s.identity.1 = agent
      · rw [if_pos ha.symm, List.filter_cons_of_pos (by simpa using ha), ha]
        simp
      · rw [if_neg fun h => ha h.symm, List.filter_cons_of_neg (by simpa using ha)]

/-- **Sorted, the indices are a range**: they are one up to their order. -/
theorem isRange_iff {indices : List (Option Int)} :
    isRange indices = true ↔ (indices.map fun i => i.getD 0).Perm
      ((List.range indices.length).map Int.ofNat) := by
  unfold isRange
  rw [beq_iff_eq]
  have hperm := List.mergeSort_perm (indices.map fun i => i.getD 0) (· ≤ ·)
  constructor
  · intro h
    exact hperm.symm.trans (.of_eq h)
  · intro h
    have hsorted : ((List.range indices.length).map Int.ofNat).Pairwise (· ≤ ·) := by
      rw [List.pairwise_map]
      exact List.pairwise_le_range.imp fun h => Int.ofNat_le.mpr h
    have hms := @List.pairwise_mergeSort Int (fun a b => decide (a ≤ b))
      (fun a b c hab hbc => by simp only [decide_eq_true_eq] at *; omega)
      (fun a b => by simp only [Bool.or_eq_true, decide_eq_true_eq]; omega)
      (indices.map fun i => i.getD 0)
    refine (hperm.trans h).eq_of_pairwise (fun a b _ _ hab hba => ?_) hms
      (hsorted.imp fun h => by simpa using h)
    simp only [decide_eq_true_eq] at hab hba
    omega

/-- The segments of every agent form ranges. -/
theorem segments_ranges {streams : List TrainingStream} :
    (((streams.foldl Identities.add ⟨[], ∅⟩).segments.entries.all fun entry =>
      isRange entry.2) = true) ↔ ∀ agent, isRange (segmentsOf streams agent) = true := by
  have hget : ∀ agent, ((streams.foldl Identities.add ⟨[], ∅⟩).segments.get? agent).getD [] =
      segmentsOf streams agent := fun agent => by
    rw [add_segments]
    rfl
  rw [List.all_eq_true]
  constructor
  · intro h agent
    rw [← hget agent]
    cases hs : (streams.foldl Identities.add ⟨[], ∅⟩).segments.get? agent with
    | none => exact isRange_iff.mpr .rfl
    | some indices => exact h (agent, indices) ((Dict.get?_eq_some_iff _ _ _).mp hs)
  · intro h entry hentry
    have hs := (Dict.get?_eq_some_iff _ entry.1 entry.2).mpr hentry
    have hr := h entry.1
    rwa [← hget, hs] at hr

end Streams

/-! ## 2. The results -/

/-- `(result.task_id, result.slot)`. -/
def TrialResult.key (r : TrialResult) : String × Int :=
  (r.taskId.asStr.getD "", r.slot.asInt.getD 0)

/-- What is asked of each result by itself. -/
structure TrialOk (a : Allocation) (roles : Roles) (selected : List String) (e : Expectation)
    (requireRoutedExperts : Bool) (r : TrialResult) : Prop where
  taskId : checkName r.taskId "task_id" = .ok ()
  sessionId : checkName r.sessionId "session_id" = .ok ()
  slot : r.slot = .int r.key.2
  attempt : ∃ (attempts : List String) (n : Nat) (sid : String),
    a.expected.get? r.key = some attempts ∧ r.attempt = .int n ∧ attempts[n]? = some sid ∧
      r.sessionId = .str sid
  scores : isScores r.scores = true
  errors : (isErrorText r.error && isErrorText r.cleanupError) = true
  streams : ∀ s ∈ r.streams, StreamOk roles selected e requireRoutedExperts r.sessionId s
  unrepeated : (r.streams.map TrainingStream.identity).Nodup
  segments : ∀ agent, isRange (segmentsOf r.streams agent) = true

section Trials

variable {a : Allocation} {roles : Roles} {selected : List String} {e : Expectation} {req : Bool}

theorem checkName_str {v : Json} {label : String} (h : checkName v label = .ok ()) :
    ∃ s, v = .str s ∧ isBlank s = false := by
  cases v with
  | str s =>
    refine ⟨s, rfl, ?_⟩
    unfold checkName at h
    simpa using guardE_ok.mp h
  | _ => cases h

theorem checkTrial_iff {seen seen' : List (String × Int)} {r : TrialResult} :
    checkTrial a roles selected e req seen r = .ok seen' ↔
      TrialOk a roles selected e req r ∧ r.key ∉ seen ∧ seen' = r.key :: seen := by
  constructor
  · intro h
    unfold checkTrial at h
    obtain ⟨_, htask, h⟩ := bind_ok h
    obtain ⟨_, hsid, h⟩ := bind_ok h
    obtain ⟨sid, hs, -⟩ := checkName_str hsid
    split at h
    · next slot attempt hslot hattempt =>
      have hkey : r.key = (r.taskId.asStr.getD "", slot) := by
        unfold TrialResult.key
        rw [hslot]
        rfl
      obtain ⟨_, hnonneg, h⟩ := bind_ok h
      rw [← hkey] at h
      simp only at h
      split at h
      · cases h
      · next attempts hget =>
        obtain ⟨_, hfresh, h⟩ := bind_ok h
        obtain ⟨_, hsession, h⟩ := bind_ok h
        obtain ⟨_, hscores, h⟩ := bind_ok h
        obtain ⟨_, herrors, h⟩ := bind_ok h
        obtain ⟨ids, hstreams, h⟩ := bind_ok h
        obtain ⟨_, hseg, h⟩ := bind_ok h
        cases h
        rw [guardE_ok] at hnonneg hfresh hsession hscores herrors hseg
        obtain ⟨hall, hnodup, -, rfl⟩ := checkStreams_iff.mp hstreams
        obtain ⟨n, rfl⟩ := Int.eq_ofNat_of_zero_le (of_decide_eq_true hnonneg)
        rw [hs] at hsession
        simp only [Bool.and_eq_true, beq_iff_eq, Json.asStr] at hsession
        refine ⟨⟨htask, hsid, by rw [hkey, hslot],
          ⟨attempts, n, sid, hget, hattempt, hsession.2, hs⟩, hscores, herrors, hall, hnodup,
          segments_ranges.mp hseg⟩, by simpa using hfresh, rfl⟩
    · cases h
  · rintro ⟨⟨htask, hsid, hslot, ⟨attempts, n, sid, hget, hattempt, hat, hs⟩, hscores, herrors,
      hall, hnodup, hseg⟩, hfresh, rfl⟩
    have hstreams : checkStreams roles selected e req r.sessionId ⟨[], ∅⟩ r.streams = .ok _ :=
      checkStreams_iff.mpr
      ⟨hall, hnodup, fun _ _ => List.not_mem_nil, rfl⟩
    have hkey : (r.taskId.asStr.getD "", r.key.2) = r.key := rfl
    have hnonneg : decide ((0 : Int) ≤ n) = true := by simp
    have hcontains : (!seen.contains r.key) = true := by simpa using hfresh
    have hsession : (attempts[(n : Int).toNat]?.isSome &&
        attempts[(n : Int).toNat]? == r.sessionId.asStr) = true := by
      rw [Int.toNat_natCast, hat, hs]
      simp [Json.asStr]
    unfold checkTrial
    rw [htask, hsid, hslot, hattempt]
    simp only [ok_bind, guardE, hnonneg, if_true, hkey, hget, hcontains, hsession, hscores,
      herrors, hstreams, segments_ranges.mpr hseg]
    rfl

/-- **The results** pass one by one, with no slot twice. -/
theorem checkTrials_iff : ∀ {results : List TrialResult} {seen seen' : List (String × Int)},
    checkTrials a roles selected e req seen results = .ok seen' ↔
      (∀ r ∈ results, TrialOk a roles selected e req r) ∧
      (results.map TrialResult.key).Nodup ∧ (∀ r ∈ results, r.key ∉ seen) ∧
      seen' = (results.map TrialResult.key).reverse ++ seen
  | [], seen, seen' => by
      constructor
      · intro h
        cases h
        exact ⟨nofun, List.nodup_nil, nofun, rfl⟩
      · rintro ⟨-, -, -, rfl⟩
        rfl
  | r :: rest, seen, seen' => by
      constructor
      · intro h
        obtain ⟨seen₁, hr, h⟩ := bind_ok h
        obtain ⟨hok, hfresh, rfl⟩ := checkTrial_iff.mp hr
        obtain ⟨hall, hnodup, hrest, rfl⟩ := checkTrials_iff.mp h
        refine ⟨List.forall_mem_cons.mpr ⟨hok, hall⟩, ?_,
          List.forall_mem_cons.mpr ⟨hfresh, fun x hx => fun hm => hrest x hx (.tail _ hm)⟩,
          by simp⟩
        rw [List.map_cons, List.nodup_cons]
        refine ⟨fun hmem => ?_, hnodup⟩
        obtain ⟨x, hx, he⟩ := List.mem_map.mp hmem
        exact hrest x hx (he ▸ List.mem_cons_self)
      · rintro ⟨hall, hnodup, hfresh, rfl⟩
        rw [List.map_cons, List.nodup_cons] at hnodup
        obtain ⟨hok, hall⟩ := List.forall_mem_cons.mp hall
        obtain ⟨hr, hrest⟩ := List.forall_mem_cons.mp hfresh
        rw [checkTrials, checkTrial_iff.mpr ⟨hok, hr, rfl⟩, ok_bind]
        refine checkTrials_iff.mpr ⟨hall, hnodup.2, fun x hx hm => ?_, by simp⟩
        rcases List.mem_cons.mp hm with he | hm
        · exact hnodup.1 (he ▸ List.mem_map_of_mem hx)
        · exact hrest x hx hm

end Trials

/-! ## 3. The allocation -/

/-- The slots of a task from the `n`-th on, with their attempts. -/
def slotsFrom (task : String) : Nat → List Json → List ((String × Int) × List Json)
  | _, [] => []
  | n, attempts :: rest => ((task, (n : Int)), itemsOf attempts) :: slotsFrom task (n + 1) rest

/-- The slots of an allocation map, with their attempts. -/
def slotsOf (tasks : Fields) : List ((String × Int) × List Json) :=
  tasks.flatMap fun e => slotsFrom e.1 0 (itemsOf e.2)

/-- A slot as the checks keep it, read back. -/
def slotJson (x : (String × Int) × List String) : (String × Int) × List Json :=
  (x.1, x.2.map .str)

/-- The allocation `a'` is `a` with the slots `new` behind. -/
structure Grows (a a' : Allocation) (new : List ((String × Int) × List String)) : Prop where
  entries : a'.expected.entries = a.expected.entries ++ new
  sessions : a'.sessions = (new.flatMap Prod.snd).reverse ++ a.sessions
  nodup : a.sessions.Nodup → a'.sessions.Nodup

theorem Grows.refl (a : Allocation) : Grows a a [] :=
  ⟨(List.append_nil _).symm, rfl, id⟩

theorem Grows.trans {a b c : Allocation} {l m : List ((String × Int) × List String)}
    (h : Grows a b l) (h' : Grows b c m) : Grows a c (l ++ m) where
  entries := by rw [h'.entries, h.entries, List.append_assoc]
  sessions := by
    rw [h'.sessions, h.sessions, List.flatMap_append, List.reverse_append, List.append_assoc]
  nodup := fun hn => h'.nodup (h.nodup hn)

theorem allocateAttempts_ok : ∀ {sids : List Json} {sessions sessions' ids : List String},
    allocateAttempts sessions sids = .ok (ids, sessions') →
      sids = ids.map .str ∧ sessions' = ids.reverse ++ sessions ∧
        (sessions.Nodup → sessions'.Nodup)
  | [], _, _, _, h => by
      cases h
      exact ⟨rfl, rfl, id⟩
  | sid :: rest, sessions, sessions', ids, h => by
      obtain ⟨_, hname, h⟩ := bind_ok h
      obtain ⟨s, rfl, -⟩ := checkName_str hname
      obtain ⟨_, hfresh, h⟩ := bind_ok h
      obtain ⟨⟨attempts, sessions₁⟩, hrest, h⟩ := bind_ok h
      cases h
      rw [guardE_ok] at hfresh
      obtain ⟨rfl, rfl, hnodup⟩ := allocateAttempts_ok hrest
      exact ⟨rfl, by simp [Json.asStr], fun hn =>
        hnodup (List.nodup_cons.mpr ⟨by simpa using hfresh, hn⟩)⟩

theorem allocateSlots_ok {task : String} : ∀ {slots : List Json} {a a' : Allocation} {n : Nat},
    allocateSlots task a n slots = .ok a' →
      (∀ k : Nat, n ≤ k → a.expected.get? (task, (k : Int)) = none) →
        ∃ new, Grows a a' new ∧ slotsFrom task n slots = new.map slotJson ∧
          ∀ x ∈ new, x.1.1 = task
  | [], a, a', _, h, _ => by
      cases h
      exact ⟨[], .refl a, rfl, nofun⟩
  | attempts :: rest, a, a', n, h, hfree => by
      unfold allocateSlots at h
      split at h
      · next sid sids =>
        obtain ⟨⟨ids, sessions⟩, hids, h⟩ := bind_ok h
        obtain ⟨hstr, rfl, hnodup⟩ := allocateAttempts_ok hids
        have hset : ∀ k : Nat, n + 1 ≤ k →
            (a.expected.set (task, (n : Int)) ids).get? (task, (k : Int)) = none := fun k hk => by
          rw [Dict.get?_set, if_neg fun he => by
            have := congrArg Prod.snd he
            simp only [Int.natCast_inj] at this
            omega]
          exact hfree k (by omega)
        obtain ⟨new, hgrows, hslots, htask⟩ := allocateSlots_ok h hset
        refine ⟨((task, (n : Int)), ids) :: new, ?_, ?_, List.forall_mem_cons.mpr ⟨rfl, htask⟩⟩
        · have hone : Grows a ⟨a.expected.set (task, (n : Int)) ids, ids.reverse ++ a.sessions⟩
              [((task, (n : Int)), ids)] :=
            ⟨Dict.set_entries_of_none ids (hfree n le_rfl), by simp, hnodup⟩
          exact hone.trans hgrows
        · rw [slotsFrom, hslots, List.map_cons]
          unfold slotJson
          rw [← hstr]
          rfl
      · cases h

/-- **The allocation is the slots of the map**, in its order; no session id is there twice. -/
theorem allocateTasks_ok : ∀ {tasks : Fields} {a a' : Allocation},
    allocateTasks a tasks = .ok a' → (tasks.map Prod.fst).Nodup →
      (∀ e ∈ tasks, ∀ k, a.expected.get? (e.1, k) = none) →
        ∃ new, Grows a a' new ∧ slotsOf tasks = new.map slotJson
  | [], a, a', h, _, _ => by
      cases h
      exact ⟨[], .refl a, rfl⟩
  | (task, slots) :: rest, a, a', h, hn, hfree => by
      obtain ⟨hfresh, hrest⟩ := List.nodup_cons.mp hn
      unfold allocateTasks at h
      obtain ⟨_, -, h⟩ := bind_ok h
      split at h
      · next slot more =>
        obtain ⟨a₁, hslots, h⟩ := bind_ok h
        obtain ⟨new, hgrows, hjson, htask⟩ := allocateSlots_ok hslots
          fun k _ => hfree _ List.mem_cons_self k
        have hfree₁ : ∀ e ∈ rest, ∀ k, a₁.expected.get? (e.1, k) = none := fun e he k => by
          rw [Dict.get?_eq_none_iff]
          unfold Dict.keys
          rw [hgrows.entries, List.map_append, List.mem_append]
          rintro (hold | hnew)
          · exact (Dict.get?_eq_none_iff _ _).mp (hfree e (.tail _ he) k) hold
          · obtain ⟨x, hx, hk⟩ := List.mem_map.mp hnew
            have ht : e.1 = task := by
              have := htask x hx
              rwa [hk] at this
            have hmem : e.1 ∈ rest.map Prod.fst := List.mem_map_of_mem he
            rw [ht] at hmem
            exact hfresh hmem
        obtain ⟨later, hgrows', hjson'⟩ := allocateTasks_ok h hrest hfree₁
        refine ⟨new ++ later, hgrows.trans hgrows', ?_⟩
        unfold slotsOf at hjson' ⊢
        rw [List.flatMap_cons, hjson', List.map_append]
        exact congrArg (· ++ _) hjson
      · cases h

/-! ## 4. Sampled tokens and their spans -/

/-- The token at `i` is in the completion. -/
def TrainingCompletion.Covers (c : TrainingCompletion) (i : Nat) : Prop :=
  ∃ a b : Nat, c.start = .int a ∧ c.stop = .int b ∧ a ≤ i ∧ i < b

theorem mem_span {l : List Json} {x : Json} {start stop i : Nat} (hx : l[i]? = some x)
    (hstart : start ≤ i) (hstop : i < stop) : x ∈ span l start stop := by
  unfold span
  refine List.mem_of_getElem? (i := i - start) ?_
  rw [List.getElem?_drop, Nat.add_sub_cancel' hstart, List.getElem?_take, if_pos hstop, hx]

theorem spanOf_some {c : TrainingCompletion} {cursor size a b : Nat}
    (h : spanOf c cursor size = some (a, b)) :
    c.start = .int a ∧ c.stop = .int b ∧ cursor ≤ a ∧ a ≤ b ∧ b ≤ size := by
  unfold spanOf at h
  split at h
  · next x y hx hy =>
    split at h
    · next hle =>
      cases h
      rw [hx, hy]
      refine ⟨?_, ?_, ?_, ?_, ?_⟩
      · rw [Int.toNat_of_nonneg (by omega)]
      · rw [Int.toNat_of_nonneg (by omega)]
      all_goals omega
    · cases h
  · cases h

/-- What is not masked out behind the cursor lies in one of the completions. -/
theorem turnsFrom_spanned {s : TrainingStream} (hlen : s.lossMask.length = s.tokens.length)
    {i : Nat} {m : Json} (hm : s.lossMask[i]? = some m) (h1 : isZero m = false) :
    ∀ {cs : List TrainingCompletion} {cursor : Nat} {turns : List Json},
      s.turnsFrom cursor cs = .ok turns → cursor ≤ i → ∃ c ∈ cs, c.Covers i
  | [], cursor, _, h, hi => by
      obtain ⟨_, hcursor, -⟩ := bind_ok h
      rw [guardE_ok, beq_iff_eq] at hcursor
      obtain ⟨hlt, -⟩ := List.getElem?_eq_some_iff.mp hm
      omega
  | c :: rest, cursor, turns, h, hi => by
      unfold TrainingStream.turnsFrom at h
      split at h
      · cases h
      · next a b hspan =>
        obtain ⟨hstart, hstop, hca, hab, -⟩ := spanOf_some hspan
        obtain ⟨_, hmask, h⟩ := bind_ok h
        obtain ⟨_, -, h⟩ := bind_ok h
        obtain ⟨_, -, h⟩ := bind_ok h
        obtain ⟨later, hrest, -⟩ := bind_ok h
        rw [guardE_ok, Bool.and_eq_true, Bool.and_eq_true, List.all_eq_true] at hmask
        by_cases hia : i < a
        · -- in front of the completion every mask is zero
          rw [hmask.1.1 m (mem_span hm hi hia)] at h1
          cases h1
        · by_cases hib : i < b
          · exact ⟨c, List.mem_cons_self, a, b, hstart, hstop, Nat.not_lt.mp hia, hib⟩
          · obtain ⟨c', hc', hcov⟩ := turnsFrom_spanned hlen hm h1 hrest (Nat.not_lt.mp hib)
            exact ⟨c', .tail _ hc', hcov⟩

/-- What a validation asks before the completions. -/
structure Framed (s : TrainingStream) : Prop where
  sessionId : ∃ sid, s.sessionId = .str sid ∧ isBlank sid = false
  agentId : s.agentId = .null ∨ ∃ a, s.agentId = .str a ∧ isBlank a = false
  role : ∃ role, s.role = .str role ∧ isBlank role = false
  segmentIndex : ∃ n : Nat, s.segmentIndex = .int n
  tokens : s.lossMask.length = s.tokens.length
  logprobs : s.logprobs.length = s.tokens.length
  masks : s.lossMask.all isMask = true
  finite : s.logprobs.all finite = true

theorem checkName_iff {v : Json} {label : String} :
    checkName v label = .ok () ↔ ∃ s, v = .str s ∧ isBlank s = false := by
  refine ⟨checkName_str, ?_⟩
  rintro ⟨x, rfl, hx⟩
  change guardE (!isBlank x) _ = _
  rw [hx]
  rfl

theorem checkOptionalName_iff {v : Json} {label : String} :
    checkOptionalName v label = .ok () ↔ v = .null ∨ ∃ s, v = .str s ∧ isBlank s = false := by
  unfold checkOptionalName
  cases v with
  | null => exact ⟨fun _ => .inl rfl, fun _ => rfl⟩
  | _ =>
    simp only [Json.isNull, Bool.false_eq_true, if_false, checkName_iff, reduceCtorEq, false_or]

/-- **A validation**, before the completions and behind them. -/
theorem validate_iff {s : TrainingStream} {req : Bool} :
    s.validate req = .ok () ↔ Framed s ∧ ∃ turns, s.turnsFrom 0 s.completions = .ok turns ∧
      validateTurns none true (req || !s.routedExperts.isNull) turns s.captures = .ok () := by
  constructor
  · intro h
    unfold TrainingStream.validate at h
    obtain ⟨_, hsid, h⟩ := bind_ok h
    obtain ⟨_, hagent, h⟩ := bind_ok h
    obtain ⟨_, hrole, h⟩ := bind_ok h
    split at h
    · next n hn =>
      obtain ⟨_, hnonneg, h⟩ := bind_ok h
      obtain ⟨_, hlen, h⟩ := bind_ok h
      obtain ⟨_, hmasks, h⟩ := bind_ok h
      obtain ⟨_, hfinite, h⟩ := bind_ok h
      obtain ⟨turns, hturns, hrecord⟩ := bind_ok h
      rw [guardE_ok] at hnonneg hlen hmasks hfinite
      obtain ⟨k, rfl⟩ := Int.eq_ofNat_of_zero_le (of_decide_eq_true hnonneg)
      simp only [Bool.and_eq_true, beq_iff_eq] at hlen
      exact ⟨⟨checkName_iff.mp hsid, checkOptionalName_iff.mp hagent, checkName_iff.mp hrole,
        ⟨k, hn⟩, hlen.1.symm, (hlen.1.trans hlen.2).symm, hmasks, hfinite⟩, turns, hturns,
        hrecord⟩
    · cases h
  · rintro ⟨hf, turns, hturns, h⟩
    obtain ⟨n, hn⟩ := hf.segmentIndex
    have hnonneg : decide ((0 : Int) ≤ n) = true := by simp
    have hlen : (s.tokens.length == s.lossMask.length &&
        s.lossMask.length == s.logprobs.length) = true := by simp [hf.tokens, hf.logprobs]
    unfold TrainingStream.validate
    rw [checkName_iff.mpr hf.sessionId, checkOptionalName_iff.mpr hf.agentId,
      checkName_iff.mpr hf.role, hn]
    simp only [ok_bind, guardE, hnonneg, hlen, hf.masks, hf.finite, if_true, hturns, h]

theorem Framed.agent {s : TrainingStream} (h : Framed s) :
    ∃ agent, agentOf s.agentId = some agent := by
  rcases h.agentId with ha | ⟨a, ha, -⟩
  · exact ⟨none, by rw [ha]; rfl⟩
  · exact ⟨some a, by rw [ha]; rfl⟩

/-- **A sampled token lies in a completion span.** -/
theorem sampled_spanned {s : TrainingStream} {req : Bool} (h : s.validate req = .ok ()) {i : Nat}
    (hi : s.lossMask[i]? = some (.int 1)) : ∃ c ∈ s.completions, c.Covers i := by
  obtain ⟨hf, turns, hturns, -⟩ := validate_iff.mp h
  exact turnsFrom_spanned hf.tokens hi (by decide) hturns (Nat.zero_le i)

/-! ## 5. Expectations -/

/-- The completion carries the expected version and sampling parameters. -/
structure TrainingCompletion.Meets (c : TrainingCompletion) (e : Expectation) : Prop where
  version : e.version ≠ .null → c.weightVersion = e.version
  sampling : ∀ expected, e.sampling = .obj expected → ∃ params, c.samplingParams = .obj params ∧
    ∀ x ∈ expected, (Fields.get params x.1).pyEq x.2 = true

/-- A completion that covers a token is checked. -/
theorem checkCompletion_meets {e : Expectation} {c : TrainingCompletion} {i : Nat}
    (hversion : checkOptionalName e.version "expected_weight_version" = .ok ())
    (h : checkCompletion e c = .ok ()) (hc : c.Covers i) : c.Meets e := by
  obtain ⟨a, b, ha, hb, hai, hib⟩ := hc
  have hne : ¬c.start.asInt = c.stop.asInt := fun he => by
    rw [ha, hb] at he
    simp only [Json.asInt, Option.some.injEq, Int.natCast_inj] at he
    omega
  unfold checkCompletion at h
  rw [if_neg hne] at h
  obtain ⟨_, hv, h⟩ := bind_ok h
  rw [guardE_ok, Bool.or_eq_true] at hv
  refine ⟨fun hnull => ?_, fun expected he => ?_⟩
  · rcases hv with hisnull | hv
    · cases hx : e.version with
      | null => exact absurd hx hnull
      | _ =>
        rw [hx] at hisnull
        cases hisnull
    · unfold checkOptionalName at hversion
      split at hversion
      · next hisnull =>
        cases hx : e.version with
        | null => exact absurd hx hnull
        | _ =>
          rw [hx] at hisnull
          cases hisnull
      · obtain ⟨v, hx, -⟩ := checkName_str hversion
        rw [hx] at hv ⊢
        exact pyEq_str_right hv
  · rw [he] at h
    simp only [guardE_ok, Bool.not_eq_true'] at h
    unfold mismatched at h
    split at h
    · next params hp =>
      refine ⟨params, hp, fun x hx => ?_⟩
      have := List.any_eq_false.mp h x hx
      simpa using this
    · cases h

theorem checkCompletions_mem {e : Expectation} : ∀ {cs : List TrainingCompletion},
    checkCompletions e cs = .ok () → ∀ c ∈ cs, checkCompletion e c = .ok ()
  | [], _ => nofun
  | c :: rest, h => by
      obtain ⟨_, hc, h⟩ := bind_ok h
      exact List.forall_mem_cons.mpr ⟨hc, checkCompletions_mem h⟩

/-! ## 6. The verdict -/

/-- **The verdict on a batch**, item by item. -/
theorem validateTrainingResults_iff {results : List TrialResult} {allocations : Json}
    {roles : Roles} {trained : Option (List String)} {e : Expectation} {req : Bool} :
    validateTrainingResults results allocations roles trained e req = .ok () ↔
      checkRoles roles = .ok () ∧ ∃ selected, trainedSelection roles trained = .ok selected ∧
      isExpectedSampling e.sampling = true ∧
      checkOptionalName e.version "expected_weight_version" = .ok () ∧
      ∃ tasks a, allocations = .obj tasks ∧ allocateTasks ⟨∅, []⟩ tasks = .ok a ∧
        (∀ r ∈ results, TrialOk a roles selected e req r) ∧
        (results.map TrialResult.key).Nodup ∧
        ∀ k ∈ a.expected.keys, k ∈ results.map TrialResult.key := by
  constructor
  · intro h
    unfold validateTrainingResults at h
    obtain ⟨_, hroles, h⟩ := bind_ok h
    obtain ⟨selected, hsel, h⟩ := bind_ok h
    obtain ⟨_, hsampling, h⟩ := bind_ok h
    obtain ⟨_, hversion, h⟩ := bind_ok h
    rw [guardE_ok] at hsampling
    cases allocations with
    | obj tasks =>
      obtain ⟨a, ha, h⟩ := bind_ok h
      obtain ⟨seen, hseen, h⟩ := bind_ok h
      rw [guardE_ok, List.all_eq_true] at h
      obtain ⟨hall, hnodup, -, rfl⟩ := checkTrials_iff.mp hseen
      exact ⟨hroles, selected, hsel, hsampling, hversion, tasks, a, rfl, ha, hall, hnodup,
        fun k hk => by simpa using h k hk⟩
    | _ => cases h
  · rintro ⟨hroles, selected, hsel, hsampling, hversion, tasks, a, rfl, ha, hall, hnodup, hkeys⟩
    have htrials : checkTrials a roles selected e req [] results = .ok _ := checkTrials_iff.mpr
      ⟨hall, hnodup, fun _ _ => List.not_mem_nil, rfl⟩
    have hcovered : (a.expected.keys.all
        ((results.map TrialResult.key).reverse ++ []).contains) = true := by
      rw [List.all_eq_true]
      intro k hk
      simpa using hkeys k hk
    unfold validateTrainingResults
    simp only [hroles, hsel, hsampling, hversion, ha, htrials, hcovered, guardE, ok_bind, if_true]

/-! ## 7. Any order -/

/-- The same result with its streams in another order. -/
structure SameTrial (r r' : TrialResult) : Prop where
  streams : r.streams.Perm r'.streams
  rest : r' = { r with streams := r'.streams }

/-- The results in another order, and the streams of each in another order. -/
def Reordered (results results' : List TrialResult) : Prop :=
  ∃ mid, results.Perm mid ∧ List.Forall₂ SameTrial mid results'

theorem SameTrial.symm {r r' : TrialResult} (h : SameTrial r r') : SameTrial r' r where
  streams := h.streams.symm
  rest := by rw [h.rest]

theorem SameTrial.key {r r' : TrialResult} (h : SameTrial r r') : r'.key = r.key := by
  rw [h.rest]
  rfl

theorem isRange_perm {l m : List (Option Int)} (h : l.Perm m) (hl : isRange l = true) :
    isRange m = true := by
  rw [isRange_iff] at hl ⊢
  rw [← h.length_eq]
  exact (h.map _).symm.trans hl

theorem SameTrial.ok {a : Allocation} {roles : Roles} {selected : List String} {e : Expectation}
    {req : Bool} {r r' : TrialResult} (h : SameTrial r r')
    (hr : TrialOk a roles selected e req r) : TrialOk a roles selected e req r' := by
  obtain ⟨hperm, hrest⟩ := h
  rw [hrest]
  exact ⟨hr.taskId, hr.sessionId, hr.slot, hr.attempt, hr.scores, hr.errors,
    fun s hs => hr.streams s (hperm.mem_iff.mpr hs),
    (hperm.map _).nodup_iff.mp hr.unrepeated,
    fun agent => isRange_perm ((hperm.filter _).map _) (hr.segments agent)⟩

theorem sameTrials_keys {results results' : List TrialResult}
    (h : List.Forall₂ SameTrial results results') :
    results'.map TrialResult.key = results.map TrialResult.key := by
  induction h with
  | nil => rfl
  | cons hr _ ih => rw [List.map_cons, List.map_cons, hr.key, ih]

theorem Reordered.symm {results results' : List TrialResult} (h : Reordered results results') :
    Reordered results' results := by
  obtain ⟨mid, hperm, hsame⟩ := h
  obtain ⟨m, hsame', hperm'⟩ := List.perm_comp_forall₂ hperm hsame
  exact ⟨m, hperm'.symm, List.Forall₂.flip (hsame'.imp fun _ _ h => h.symm)⟩

/-- **The order of the results and of their streams** does not make a batch fail. -/
theorem validate_reordered {results results' : List TrialResult} {allocations : Json}
    {roles : Roles} {trained : Option (List String)} {e : Expectation} {req : Bool}
    (h : Reordered results results')
    (hv : validateTrainingResults results allocations roles trained e req = .ok ()) :
    validateTrainingResults results' allocations roles trained e req = .ok () := by
  obtain ⟨hroles, selected, hsel, hsampling, hversion, tasks, a, rfl, ha, hall, hnodup, hkeys⟩ :=
    validateTrainingResults_iff.mp hv
  obtain ⟨mid, hperm, hsame⟩ := h
  have hmap : (results.map TrialResult.key).Perm (results'.map TrialResult.key) := by
    rw [sameTrials_keys hsame]
    exact hperm.map _
  refine validateTrainingResults_iff.mpr ⟨hroles, selected, hsel, hsampling, hversion, tasks, a,
    rfl, ha, fun r' hr' => ?_, hmap.nodup_iff.mp hnodup, fun k hk => hmap.mem_iff.mp (hkeys k hk)⟩
  obtain ⟨r, hr, hsr⟩ := forall₂_right hsame r' hr'
  exact hsr.ok (hall r (hperm.mem_iff.mpr hr))

/-! ## 8. The contract -/

/-- A complete, unmixed, on-policy batch for an allocation. -/
structure Contract (tasks : Fields) (roles : Roles) (trained : Option (List String))
    (e : Expectation) (results : List TrialResult) : Prop where
  /-- one result for each slot, one slot for each result -/
  slots : ((slotsOf tasks).map Prod.fst).Nodup
  complete : (results.map TrialResult.key).Perm ((slotsOf tasks).map Prod.fst)
  named : ∀ r ∈ results, r.taskId = .str r.key.1 ∧ r.slot = .int r.key.2
  /-- the session of the attempt, allocated once -/
  session : ∀ r ∈ results, ∃ attempts, (r.key, attempts) ∈ slotsOf tasks ∧
    ∃ n : Nat, r.attempt = .int n ∧ attempts[n]? = some r.sessionId
  once : ((slotsOf tasks).flatMap Prod.snd).Nodup
  own : ∀ r ∈ results, ∀ s ∈ r.streams, s.sessionId = r.sessionId
  /-- the segments of an agent are numbered through -/
  segments : ∀ r ∈ results, ∀ agent : Option String, ∃ k : Nat,
    ((r.streams.filter fun s => agentOf s.agentId = some agent).map
      TrainingStream.segmentIndex).Perm ((List.range k).map fun n => .int (Int.ofNat n))
  registered : ∀ r ∈ results, ∀ s ∈ r.streams, ∃ agent role, agentOf s.agentId = some agent ∧
    roleOf roles agent = some role ∧ s.role = .str role
  /-- what is sampled for a trained role meets the expectations -/
  policy : ∀ r ∈ results, ∀ s ∈ r.streams, ∀ agent role, agentOf s.agentId = some agent →
    roleOf roles agent = some role → role ∈ trained.getD (roles.map Prod.snd) →
      ∀ i, s.lossMask[i]? = some (.int 1) → ∃ c ∈ s.completions, c.Covers i ∧ c.Meets e

section Contract

variable {tasks : Fields} {a : Allocation} {roles : Roles} {selected : List String}
  {e : Expectation} {req : Bool} {r : TrialResult} {s : TrainingStream}

theorem StreamOk.registered_role {sid : Json} (h : StreamOk roles selected e req sid s) :
    ∃ agent role, agentOf s.agentId = some agent ∧ roleOf roles agent = some role ∧
      s.role = .str role := by
  obtain ⟨hf, -⟩ := validate_iff.mp h.valid
  obtain ⟨agent, ha⟩ := hf.agent
  obtain ⟨role, hrole, -⟩ := hf.role
  have hreg := h.registered
  rw [Bool.and_eq_true, beq_iff_eq] at hreg
  refine ⟨agent, role, ha, ?_, hrole⟩
  have := hreg.2
  unfold TrainingStream.identity at this
  rw [ha, hrole] at this
  exact this

/-- The streams of one agent are numbered from zero. -/
theorem TrialOk.segmentIndices (h : TrialOk a roles selected e req r) (agent : Option String) :
    ∃ k : Nat, ((r.streams.filter fun s => agentOf s.agentId = some agent).map
      TrainingStream.segmentIndex).Perm ((List.range k).map fun n => .int (Int.ofNat n)) := by
  have hseg := isRange_iff.mp (h.segments (some agent))
  refine ⟨(segmentsOf r.streams (some agent)).length, ?_⟩
  have hmap : (r.streams.filter fun s => agentOf s.agentId = some agent).map
      TrainingStream.segmentIndex =
        ((segmentsOf r.streams (some agent)).map fun i => i.getD 0).map Json.int := by
    unfold segmentsOf TrainingStream.identity
    rw [List.map_map, List.map_map]
    refine List.map_congr_left fun s hs => ?_
    obtain ⟨n, hn⟩ := (validate_iff.mp (h.streams s (List.mem_of_mem_filter hs)).valid).1.segmentIndex
    simp only [Function.comp_apply, hn]
    rfl
  rw [hmap]
  refine (hseg.map Json.int).trans (.of_eq ?_)
  rw [List.map_map]
  rfl

/-- What is sampled in a stream of a trained role meets the expectations. -/
theorem StreamOk.sampled_meets {sid : Json} (h : StreamOk roles selected e req sid s)
    (hversion : checkOptionalName e.version "expected_weight_version" = .ok ())
    {agent : Option String} {role : String} (ha : agentOf s.agentId = some agent)
    (hrole : roleOf roles agent = some role) (hsel : role ∈ selected) {i : Nat}
    (hi : s.lossMask[i]? = some (.int 1)) : ∃ c ∈ s.completions, c.Covers i ∧ c.Meets e := by
  obtain ⟨agent', role', ha', hrole', hs⟩ := h.registered_role
  rw [ha] at ha'
  cases ha'
  rw [hrole] at hrole'
  cases hrole'
  have htrained : s.trained selected = true := by
    unfold TrainingStream.trained
    rw [hs]
    simpa using hsel
  obtain ⟨c, hc, hcov⟩ := sampled_spanned h.valid hi
  exact ⟨c, hc, hcov, checkCompletion_meets hversion
    (checkCompletions_mem (h.policy htrained) c hc) hcov⟩

theorem trainedSelection_ok {trained : Option (List String)}
    (h : trainedSelection roles trained = .ok selected) :
    selected = trained.getD (roles.map Prod.snd) := by
  cases trained with
  | none => exact (Except.ok.inj h).symm
  | some l =>
    obtain ⟨_, -, h⟩ := bind_ok h
    exact (Except.ok.inj h).symm

end Contract

/-- **A validated batch is complete, unmixed and on-policy**, whatever the order of its results and
    of their streams. -/
theorem validated_batch (results : List TrialResult) (allocations : Json) (roles : Roles)
    (trained : Option (List String)) (e : Expectation) (req : Bool)
    (hk : allocations.KeysOnce) :
    (validateTrainingResults results allocations roles trained e req = .ok () →
      ∃ tasks, allocations = .obj tasks ∧ Contract tasks roles trained e results) ∧
    ∀ results', Reordered results results' →
      (validateTrainingResults results' allocations roles trained e req = .ok () ↔
        validateTrainingResults results allocations roles trained e req = .ok ()) := by
  refine ⟨fun hv => ?_, fun results' h => ⟨validate_reordered h.symm, validate_reordered h⟩⟩
  obtain ⟨-, selected, hsel, -, hversion, tasks, a, rfl, ha, hall, hnodup, hkeys⟩ :=
    validateTrainingResults_iff.mp hv
  -- the slots of the table are those of the allocations, in their order
  obtain ⟨new, hgrows, hslots⟩ := allocateTasks_ok ha hk.1 fun _ _ _ => Dict.get?_empty _
  have hentries : a.expected.entries = new := hgrows.entries
  have hfst : (slotsOf tasks).map Prod.fst = a.expected.keys := by
    unfold Dict.keys
    rw [hslots, hentries, List.map_map]
    rfl
  refine ⟨tasks, rfl, ?_, ?_, fun r hr => ⟨?_, (hall r hr).slot⟩, fun r hr => ?_, ?_,
    fun r hr s hs => ?_, fun r hr agent => (hall r hr).segmentIndices agent,
    fun r hr s hs => ((hall r hr).streams s hs).registered_role,
    fun r hr s hs agent role hagent hrole htrained i hi => ?_⟩
  · rw [hfst]
    exact a.expected.nodup
  · rw [hfst]
    refine (List.perm_ext_iff_of_nodup hnodup a.expected.nodup).mpr fun k =>
      ⟨fun hmem => ?_, hkeys k⟩
    obtain ⟨r, hr, rfl⟩ := List.mem_map.mp hmem
    obtain ⟨attempts, -, -, hget, -⟩ := (hall r hr).attempt
    exact List.mem_map.mpr ⟨(r.key, attempts), (Dict.get?_eq_some_iff _ _ _).mp hget, rfl⟩
  · obtain ⟨task, htask, -⟩ := checkName_str (hall r hr).taskId
    unfold TrialResult.key
    rw [htask]
    rfl
  · obtain ⟨attempts, n, sid, hget, hattempt, hat, hsid⟩ := (hall r hr).attempt
    refine ⟨attempts.map .str, ?_, n, hattempt, by rw [List.getElem?_map, hat, hsid]; rfl⟩
    rw [hslots]
    refine List.mem_map.mpr ⟨(r.key, attempts), ?_, rfl⟩
    rw [← hentries]
    exact (Dict.get?_eq_some_iff _ _ _).mp hget
  · -- no session is allocated twice
    have hsessions := hgrows.nodup List.nodup_nil
    rw [hgrows.sessions, List.append_nil, List.nodup_reverse] at hsessions
    have hflat : (slotsOf tasks).flatMap Prod.snd = (new.flatMap Prod.snd).map Json.str := by
      rw [hslots, List.flatMap_map, List.map_flatMap]
      rfl
    rw [hflat]
    exact hsessions.map fun x y h => Json.str.inj h
  · have hok := (hall r hr).streams s hs
    obtain ⟨sid, hsid, -⟩ := (validate_iff.mp hok.valid).1.sessionId
    obtain ⟨sid', hsid', -⟩ := checkName_str (hall r hr).sessionId
    have hsame := hok.session
    rw [hsid, hsid'] at hsame
    rw [hsid, hsid', Option.some.inj hsame]
  · rw [← trainedSelection_ok hsel] at htrained
    exact ((hall r hr).streams s hs).sampled_meets hversion hagent hrole htrained hi

/-! ## 9. A batch of two trials -/

/-- The policy that is trained on. -/
def onePolicy : Expectation := ⟨.obj [("temperature", .float (.finite 1))], .str "v1"⟩

/-- What was sampled under it from `start` to `stop`. -/
def onPolicy (start stop : Int) : TrainingCompletion :=
  ⟨.int start, .int stop, onePolicy.version, onePolicy.sampling, .str "stop"⟩

/-- Two sampled tokens, and a turn between them that sampled nothing. -/
def firstSegment (sid : String) : TrainingStream where
  sessionId := .str sid
  agentId := .null
  role := .str "solver"
  segmentIndex := .int 0
  tokens := [.int 1, .int 2, .int 3, .int 4, .int 5]
  lossMask := [.int 0, .int 1, .int 0, .int 0, .int 1]
  logprobs := [.float (.finite 0), .float (.finite (-1)), .float (.finite 0), .float (.finite 0),
    .float (.finite (-2))]
  completions := [onPolicy 1 2, ⟨.int 3, .int 3, .null, .null, .null⟩, onPolicy 4 5]
  routedExperts := .null

/-- The solver's next conversation. -/
def secondSegment (sid : String) : TrainingStream where
  sessionId := .str sid
  agentId := .null
  role := .str "solver"
  segmentIndex := .int 1
  tokens := [.int 6, .int 7]
  lossMask := [.int 0, .int 1]
  logprobs := [.float (.finite 0), .float (.finite (-1))]
  completions := [onPolicy 1 2]
  routedExperts := .null

/-- A judge that is not trained, and sampled under an older policy. -/
def judgeStream (sid : String) : TrainingStream where
  sessionId := .str sid
  agentId := .str "critic"
  role := .str "judge"
  segmentIndex := .int 0
  tokens := [.int 1, .int 9]
  lossMask := [.int 0, .int 1]
  logprobs := [.float (.finite 0), .float (.finite (-3))]
  completions := [⟨.int 1, .int 2, .str "v0", .null, .str "stop"⟩]
  routedExperts := .null

def twoRoles : Roles := [(none, "solver"), (some "critic", "judge")]

/-- The second slot, and the second attempt of the first one. -/
def twoTrials : List TrialResult :=
  [⟨.str "t", .int 1, .int 0, .str "s2", [firstSegment "s2"], .obj [], .null, .null⟩,
    ⟨.str "t", .int 0, .int 1, .str "s1", [secondSegment "s1", judgeStream "s1", firstSegment "s1"],
      .obj [("reward", .int 1)], .str "timeout", .null⟩]

def twoSlots : Json :=
  .obj [("t", .arr [.arr [.str "s0", .str "s1"], .arr [.str "s2"]])]

/-- A retried trial with a second conversation and an untrained judge, out of order. -/
theorem validated_batch_two :
    validateTrainingResults twoTrials twoSlots twoRoles (some ["solver"]) onePolicy false = .ok () ∧
    ∃ tasks, twoSlots = .obj tasks ∧
      Contract tasks twoRoles (some ["solver"]) onePolicy twoTrials := by
  -- the numbering is checked as a permutation, which evaluates where a sort does not
  have hrange : isRange = fun l => decide
      ((l.map fun i => i.getD 0).Perm ((List.range l.length).map Int.ofNat)) :=
    funext fun l => Bool.eq_iff_iff.mpr (isRange_iff.trans decide_eq_true_iff.symm)
  have hv : validateTrainingResults twoTrials twoSlots twoRoles (some ["solver"]) onePolicy false =
      .ok () := by
    simp only [validateTrainingResults, twoTrials, checkTrials, checkTrial, hrange]
    decide +kernel
  have hk : twoSlots.KeysOnce :=
    ⟨by decide, ⟨⟨trivial, trivial, trivial⟩, ⟨trivial, trivial⟩, trivial⟩, trivial⟩
  exact ⟨hv, (validated_batch twoTrials twoSlots twoRoles (some ["solver"]) onePolicy false hk).1 hv⟩

end RolloutProxy
