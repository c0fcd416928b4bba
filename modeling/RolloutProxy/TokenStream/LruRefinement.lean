/-
  File:      RolloutProxy/TokenStream/LruRefinement.lean
  Subject:   THE MANAGER AS AN LRU MAP WITH REPLAY COUNTERS: under every interleaving of its calls
             the split manager does what such a map does.

  * `ReplayMap` is the map: the retained sessions with their recency, the commit each of them
    has, the replays spent on each commit, and the ids gone by eviction.
  * `ReplayMap.Step` is what it may do; the condition `isUse` says which replays are uses.
    The code uses the session only where the served commit is still its current one
    (`IsCurrent`); a replay of a replaced commit leaves the order alone.
  * `splitManager_refines_lru`: the observations of every run are a run of the map.
-/
import RolloutProxy.TokenStream.Split
import RolloutProxy.TokenStream.LostEcho
import RolloutProxy.Lib.Lru

namespace RolloutProxy

/-! ## 1. The map -/

/-- An LRU map of sessions whose commits can be replayed. -/
structure ReplayMap where
  recency : Recency String
  /-- the commit a retained session has -/
  current : String → Option Nat
  /-- the turn each commit can replay -/
  turns : List (Option ReplayedTurn)
  /-- the replays served of each commit -/
  spent : Nat → Nat
  /-- evicted, and neither committed nor dropped since -/
  gone : Finset String
  /-- the session and the commit each `cached_turn` found -/
  lookups : Nat → Option (String × Nat)

namespace ReplayMap

def empty : ReplayMap := ⟨.empty, fun _ => none, [], fun _ => 0, ∅, fun _ => none⟩

/-- One more replay of commit `n`. -/
def spend (l : ReplayMap) (n : Nat) : ReplayMap :=
  { l with spent := fun j => if j = n then l.spent j + 1 else l.spent j }

/-- The served commit is the session's current one. -/
def IsCurrent (l : ReplayMap) (sid : String) (n : Nat) : Prop := l.current sid = some n

/-- The session is retained, with whatever commit. -/
def IsRetained (l : ReplayMap) (sid : String) (_ : Nat) : Prop := sid ∈ l.recency.keys

/-- What the map does; only `committed` inserts and evicts. -/
inductive Step (cap replays : Nat) (isUse : ReplayMap → String → Nat → Prop) :
    ReplayMap → Observation → ReplayMap → Prop where
  | found {l : ReplayMap} {sid : String} (h : sid ∈ l.recency.keys) :
      Step cap replays isUse l (.found sid) { l with recency := l.recency.use sid }
  | looked {l : ReplayMap} {t : Nat} {sid : String} {n : Nat} (h : l.current sid = some n) :
      Step cap replays isUse l (.looked t sid n)
        { l with lookups := fun j => if j = t then some (sid, n) else l.lookups j }
  | servedUse {l : ReplayMap} {t : Nat} {sid : String} {n : Nat} {r : ReplayedTurn}
      (hl : l.lookups t = some (sid, n)) (hr : l.turns[n]? = some (some r))
      (hs : l.spent n < replays) (hu : isUse l sid n) :
      Step cap replays isUse l (.served t sid n r)
        { l.spend n with recency := l.recency.use sid }
  | servedApart {l : ReplayMap} {t : Nat} {sid : String} {n : Nat} {r : ReplayedTurn}
      (hl : l.lookups t = some (sid, n)) (hr : l.turns[n]? = some (some r))
      (hs : l.spent n < replays) (hu : ¬ isUse l sid n) :
      Step cap replays isUse l (.served t sid n r) (l.spend n)
  | committed {l : ReplayMap} {sid : String} {turn : Option ReplayedTurn} {out : List String}
      {rest : Recency String} (h : Recency.Evictions cap (l.recency.use sid) out rest) :
      Step cap replays isUse l (.committed sid turn)
        { l with
          recency := rest
          current := fun k =>
            if k ∈ out then none else if k = sid then some l.turns.length else l.current k
          turns := l.turns ++ [turn]
          gone := l.gone.erase sid ∪ out.toFinset }
  | dropped {l : ReplayMap} {sid : String} :
      Step cap replays isUse l (.dropped sid)
        { l with
          recency := l.recency.drop sid
          current := fun k => if k = sid then none else l.current k
          gone := l.gone.erase sid }

/-- The map after some observations. -/
inductive Run (cap replays : Nat) (isUse : ReplayMap → String → Nat → Prop) :
    List Observation → ReplayMap → Prop where
  | start : Run cap replays isUse [] empty
  | tail {os : List Observation} {o : Observation} {l l' : ReplayMap}
      (h : Run cap replays isUse os l) (hs : Step cap replays isUse l o l') :
      Run cap replays isUse (os ++ [o]) l'

variable {cap replays : Nat}

/-! ## 2. What every map keeps -/

/-- The commits are those of the retained sessions, the ids gone are not retained, the counters
    count commits that were made. -/
structure WellFormed (replays : Nat) (l : ReplayMap) : Prop where
  domain : ∀ sid, sid ∈ l.recency.keys ↔ ∃ n, l.current sid = some n
  apart : ∀ sid ∈ l.gone, sid ∉ l.recency.keys
  spent_le : ∀ n, l.spent n ≤ replays
  fresh : ∀ n, l.turns.length ≤ n → l.spent n = 0

theorem WellFormed.empty : WellFormed replays ReplayMap.empty where
  domain := by simp [ReplayMap.empty, Recency.empty]
  apart := by simp [ReplayMap.empty]
  spent_le := fun _ => Nat.zero_le _
  fresh := fun _ _ => rfl

/-- Using a retained key retains the same keys. -/
theorem use_keys {l : Recency String} {k : String} (h : k ∈ l.keys) : (l.use k).keys = l.keys :=
  Finset.insert_eq_of_mem h

theorem WellFormed.use {l : ReplayMap} (hl : WellFormed replays l) {sid : String}
    (h : sid ∈ l.recency.keys) : WellFormed replays { l with recency := l.recency.use sid } where
  domain := fun k => by
    simp only [use_keys h]
    exact hl.domain k
  apart := fun k hk => by
    simp only [use_keys h]
    exact hl.apart k hk
  spent_le := hl.spent_le
  fresh := hl.fresh

theorem WellFormed.spend {l : ReplayMap} (hl : WellFormed replays l) {n : Nat}
    {r : ReplayedTurn} (hr : l.turns[n]? = some (some r)) (hs : l.spent n < replays) :
    WellFormed replays (l.spend n) where
  domain := hl.domain
  apart := hl.apart
  spent_le := fun j => by
    have hj := hl.spent_le j
    simp only [ReplayMap.spend]
    split
    · next e => subst e; exact hs
    · exact hj
  fresh := fun j hj => by
    have hn : n < l.turns.length := (List.getElem?_eq_some_iff.mp hr).1
    simp only [ReplayMap.spend] at hj ⊢
    rw [if_neg (by omega)]
    exact hl.fresh j hj

theorem WellFormed.step {l l' : ReplayMap} {o : Observation} (hl : WellFormed replays l)
    (h : Step cap replays IsCurrent l o l') : WellFormed replays l' := by
  cases h with
  | found h => exact hl.use h
  | looked h => exact ⟨hl.domain, hl.apart, hl.spent_le, hl.fresh⟩
  | @servedUse t sid n r _ hr hs hu =>
      exact (hl.spend hr hs).use ((hl.domain sid).mpr ⟨n, hu⟩)
  | servedApart _ hr hs _ => exact hl.spend hr hs
  | @committed sid turn out rest h =>
      have hkeys := h.keys_eq
      refine ⟨fun k => ?_, fun k hk => ?_, hl.spent_le, fun n hn => hl.fresh n ?_⟩
      · have hd := hl.domain k
        simp only [hkeys, Recency.use, Finset.mem_sdiff, Finset.mem_insert, List.mem_toFinset, hd]
        by_cases ho : k ∈ out
        · simp [ho]
        · by_cases hk : k = sid <;> simp [ho, hk]
      · have ha := hl.apart k
        simp only [hkeys, Recency.use, Finset.mem_union, Finset.mem_erase, List.mem_toFinset,
          Finset.mem_sdiff, Finset.mem_insert] at hk ⊢
        tauto
      · rw [List.length_append] at hn
        omega
  | @dropped sid =>
      refine ⟨fun k => ?_, fun k hk => ?_, hl.spent_le, hl.fresh⟩
      · have hd := hl.domain k
        simp only [Recency.drop, Finset.mem_erase, hd]
        by_cases hk : k = sid <;> simp [hk]
      · have ha := hl.apart k
        simp only [Recency.drop, Finset.mem_erase] at hk ⊢
        tauto

theorem Run.wellFormed {os : List Observation} {l : ReplayMap}
    (h : Run cap replays IsCurrent os l) : WellFormed replays l := by
  induction h with
  | start => exact .empty
  | tail _ hs ih => exact ih.step hs

/-- The replays served of commit `n`. -/
def servedOf (n : Nat) (os : List Observation) : Nat :=
  os.countP fun o => match o with
    | .served _ _ j _ => j = n
    | _ => false

/-- **The counters count**: what was served of a commit is what was spent on it. -/
theorem Run.servedOf_eq {isUse : ReplayMap → String → Nat → Prop} {os : List Observation}
    {l : ReplayMap} (h : Run cap replays isUse os l) (n : Nat) : servedOf n os = l.spent n := by
  induction h with
  | start => rfl
  | @tail os o l l' _ hs ih =>
      have happ : servedOf n (os ++ [o]) = servedOf n os + servedOf n [o] := List.countP_append
      rw [happ, ih]
      cases hs with
      | @servedUse t sid j r =>
          by_cases hj : n = j
          · subst hj
            simp [servedOf, spend]
          · simp [servedOf, spend, hj, Ne.symm hj]
      | @servedApart t sid j r =>
          by_cases hj : n = j
          · subst hj
            simp [servedOf, spend]
          · simp [servedOf, spend, hj, Ne.symm hj]
      | _ => rfl

end ReplayMap

/-! ## 3. The eviction loop -/

namespace SplitManager

variable {β : Type} {cap : Nat}

theorem noteEvicted_size {ev : Dict String Unit} (h : ev.size ≤ cap) (sid : String) :
    (noteEvicted cap ev sid).size ≤ cap := by
  have hset := Dict.size_set_le ev sid ()
  unfold noteEvicted
  split
  · next hfull =>
    split
    · next hnone => exact absurd (Dict.popFirst_eq_none hnone) (by omega)
    · next e rest hsome =>
      have hsize := Dict.popFirst_size hsome
      omega
  · omega

theorem noteEvicted_contains {ev : Dict String Unit} {sid k : String}
    (h : (noteEvicted cap ev sid).contains k = true) : ev.contains k = true ∨ k = sid := by
  have hset : (ev.set sid ()).contains k = true := by
    unfold noteEvicted at h
    split at h
    · split at h
      · exact h
      · next e rest hsome =>
        simp only [Dict.contains, Dict.get?_popFirst hsome] at h ⊢
        split at h
        · cases h
        · exact h
    · exact h
  by_cases hk : k = sid
  · exact .inr hk
  · simp only [Dict.contains, Dict.get?_set_ne _ _ hk] at hset
    exact .inl hset

/-- What the loop leaves of the table of evicted ids, and what it adds. -/
theorem evictWhile_evicted (cap : Nat) : ∀ (fuel : Nat) (d : Dict String β) (ev : Dict String Unit),
    ev.size ≤ cap →
      (evictWhile cap fuel d ev).2.1.size ≤ cap ∧
      ∀ k, (evictWhile cap fuel d ev).2.1.contains k = true →
        ev.contains k = true ∨ k ∈ (evictWhile cap fuel d ev).2.2
  | 0, d, ev, h => ⟨h, fun _ hk => .inl hk⟩
  | fuel + 1, d, ev, h => by
      unfold evictWhile
      split
      · split
        · exact ⟨h, fun _ hk => .inl hk⟩
        · next sid v rest hp =>
          obtain ⟨hs, hc⟩ := evictWhile_evicted cap fuel rest _ (noteEvicted_size h sid)
          refine ⟨hs, fun k hk => ?_⟩
          rcases hc k hk with hk | hk
          · rcases noteEvicted_contains hk with hk | hk
            · exact .inl hk
            · exact .inr (hk ▸ List.mem_cons_self)
          · exact .inr (List.mem_cons_of_mem _ hk)
      · exact ⟨h, fun _ hk => .inl hk⟩

/-- **The loop evicts the oldest sessions until the rest fits.** -/
theorem evictWhile_represents (cap : Nat) : ∀ (fuel : Nat) (d : Dict String β) (ev : Dict String Unit)
    (l : Recency String), Represents d l → d.size ≤ fuel →
      ∃ l', Recency.Evictions cap l (evictWhile cap fuel d ev).2.2 l' ∧
        Represents (evictWhile cap fuel d ev).1 l' ∧
        ∀ k, (evictWhile cap fuel d ev).1.get? k =
          if k ∈ (evictWhile cap fuel d ev).2.2 then none else d.get? k
  | 0, d, ev, l, h, hf => by
      refine ⟨l, .fits ?_, h, fun k => rfl⟩
      rw [h.card_eq]
      omega
  | fuel + 1, d, ev, l, h, hf => by
      unfold evictWhile
      split
      · next hfull =>
        split
        · next hnone => exact absurd (Dict.popFirst_eq_none hnone) (by omega)
        · next sid v rest hp =>
          have hsize := Dict.popFirst_size hp
          obtain ⟨hold, hrest⟩ := h.popFirst hp
          obtain ⟨l', hl', hr', hg⟩ := evictWhile_represents cap fuel rest (noteEvicted cap ev sid)
            (l.drop sid) hrest (by omega)
          refine ⟨l', .evict (by rw [h.card_eq]; exact hfull) hold hl', hr', fun k => ?_⟩
          have hpop := Dict.get?_popFirst hp k
          have hgk := hg k
          by_cases hk : k = sid
          · subst hk
            rw [if_pos rfl] at hpop
            rw [if_pos List.mem_cons_self]
            refine hgk.trans ?_
            rw [hpop, ite_self]
          · rw [if_neg hk] at hpop
            rw [hpop] at hgk
            simpa only [List.mem_cons, hk, false_or] using hgk
      · next hfits =>
        refine ⟨l, .fits ?_, h, fun k => rfl⟩
        rw [h.card_eq]
        omega

/-! ## 4. The manager implements the map -/

/-- The manager holds what the map holds. -/
structure Implements (c : ManagerConfig) (s : SplitManager) (l : ReplayMap) : Prop where
  /-- the table is in the order of the last uses -/
  represents : Represents s.sessions l.recency
  fits : l.recency.keys.card ≤ c.maxSessions
  current : ∀ sid, s.sessions.get? sid = l.current sid
  count : s.objects.length = l.turns.length
  /-- each state object replays the turn of its commit and counts the replays served of it -/
  state : ∀ (n : Nat) (st : SessionState), s.objects[n]? = some st →
    l.turns[n]? = some (st.lastTurn.map (TokenStreamManager.replayOf st)) ∧ l.spent n = st.replays
  pending : ∀ (t : Nat) (sid : String) (messages : List Fields) (effort : Option String) (n : Nat),
    s.calls.get? t = some (.cached sid messages effort (some n)) → l.lookups t = some (sid, n)
  /-- the table of evicted ids holds only ids that are gone -/
  evicted_gone : ∀ sid, s.evicted.contains sid = true → sid ∈ l.gone
  evicted_size : s.evicted.size ≤ c.maxSessions

/-- The observations so far are a run of a map the manager implements. -/
def Refines (c : ManagerConfig) (s : SplitManager) : Prop :=
  ∃ l, ReplayMap.Run c.maxSessions c.maxTurnReplays ReplayMap.IsCurrent s.observed l ∧
    Implements c s l

variable {c : ManagerConfig} {s : SplitManager} {l : ReplayMap}

theorem refines_empty (c : ManagerConfig) : Refines c .empty :=
  ⟨.empty, .start, {
    represents := .empty
    fits := Nat.zero_le _
    current := fun _ => rfl
    count := rfl
    state := by simp [SplitManager.empty]
    pending := by simp [SplitManager.empty]
    evicted_gone := by simp [SplitManager.empty]
    evicted_size := Nat.zero_le _ }⟩

/-- A call that ends takes nothing with it. -/
theorem Implements.leave (hi : Implements c s l) (t : Nat) (r : CallResult) :
    Implements c (s.leave t r) l :=
  { hi with
    pending := fun t' sid messages effort n hp => by
      refine hi.pending t' sid messages effort n ?_
      simp only [SplitManager.leave, Dict.get?_erase] at hp
      split at hp
      · cases hp
      · exact hp }

theorem Refines.leave (h : Refines c s) (t : Nat) (r : CallResult) : Refines c (s.leave t r) := by
  obtain ⟨l, hrun, hi⟩ := h
  exact ⟨l, hrun, hi.leave t r⟩

/-- A call under way that is no `cached_turn` waits for nothing in the map. -/
theorem Implements.setCall (hi : Implements c s l) (t : Nat) (call : PendingCall)
    (hcall : ∀ sid messages effort n, call ≠ .cached sid messages effort (some n)) :
    Implements c { s with calls := s.calls.set t call } l :=
  { hi with
    pending := fun t' sid messages effort n hp => by
      refine hi.pending t' sid messages effort n ?_
      simp only [Dict.get?_set] at hp
      split at hp
      · exact absurd (Option.some.inj hp) (hcall _ _ _ _)
      · exact hp }

/-- Using a retained session changes the order only. -/
theorem Implements.use (hi : Implements c s l) {sid : String} {n : Nat}
    (hsid : s.sessions.get? sid = some n) :
    Implements c { s with sessions := s.sessions.moveToEnd sid }
      { l with recency := l.recency.use sid } := by
  have hmem : sid ∈ l.recency.keys := (hi.represents.mem_iff sid).mpr ⟨n, hsid⟩
  refine { hi with
    represents := hi.represents.moveToEnd hsid
    fits := ?_
    current := fun k => by rw [Dict.get?_moveToEnd]; exact hi.current k }
  have hfits := hi.fits
  rwa [← ReplayMap.use_keys hmem] at hfits

theorem Refines.lookupPrompt (h : Refines c s) (t : Nat) (sid : Option String)
    (messages : List Fields) (tools : Json) (effort : Option String) :
    Refines c (s.lookupPrompt t sid messages tools effort) := by
  unfold SplitManager.lookupPrompt
  split
  · exact h.leave t _
  · next sid =>
    split
    · exact h.leave t _
    · exact h.leave t _
    · next normalized _ _ =>
      obtain ⟨l, hrun, hi⟩ := h
      cases hsid : s.sessions.get? sid with
      | none =>
          have hkeep : s.sessions.moveToEnd sid = s.sessions := by
            unfold Dict.moveToEnd
            rw [hsid]
          have hcontains : s.sessions.contains sid = false := by
            rw [Dict.contains_eq_false_iff]
            exact hsid
          refine ⟨l, ?_, ?_⟩
          · simpa only [hcontains, Bool.false_eq_true, if_false, List.append_nil] using hrun
          · have hcalls := hi.setCall t
              (.build sid normalized tools effort none (s.evicted.contains sid))
              fun _ _ _ _ hn => by cases hn
            rw [hkeep]
            exact { hcalls with }
      | some n =>
          have hcontains : s.sessions.contains sid = true := by
            rw [Dict.contains_eq_true_iff]
            exact ⟨n, hsid⟩
          refine ⟨{ l with recency := l.recency.use sid }, ?_, ?_⟩
          · simp only [hcontains, if_true]
            exact .tail hrun (.found ((hi.represents.mem_iff sid).mpr ⟨n, hsid⟩))
          · have hcalls := (hi.use hsid).setCall t
              (.build sid normalized tools effort (some n) (s.evicted.contains sid))
              fun _ _ _ _ hn => by cases hn
            exact { hcalls with }

theorem Refines.lookupCached (h : Refines c s) (t : Nat) (sid : Option String)
    (messages : List Fields) (effort : Option String) :
    Refines c (s.lookupCached t sid messages effort) := by
  unfold SplitManager.lookupCached
  split
  · exact h.leave t _
  · next sid =>
    obtain ⟨l, hrun, hi⟩ := h
    cases hsid : s.sessions.get? sid with
    | none =>
        have hcalls := hi.setCall t (.cached sid messages effort none) nofun
        refine ⟨l, ?_, { hcalls with }⟩
        simpa only [List.append_nil] using hrun
    | some n =>
        refine ⟨{ l with lookups := fun j => if j = t then some (sid, n) else l.lookups j },
          .tail hrun (.looked ((hi.current sid).symm.trans hsid)), { hi with pending := ?_ }⟩
        intro t' sid' messages' effort' n' hp
        simp only [Dict.get?_set] at hp ⊢
        by_cases ht : t' = t
        · rw [if_pos ht] at hp
          rw [if_pos ht]
          cases hp
          rfl
        · rw [if_neg ht] at hp
          rw [if_neg ht]
          exact hi.pending t' sid' messages' effort' n' hp

theorem Refines.lookupTurn (h : Refines c s) (t : Nat) (sid : Option String)
    (completionIds : List Int) : Refines c (s.lookupTurn t sid completionIds) := by
  obtain ⟨l, hrun, hi⟩ := h
  exact ⟨l, hrun, hi.setCall t _ nofun⟩

/-- A replay comes from a state with replays left and is what that state replays. -/
theorem outcome_served {sid : String} {messages : List Fields} {effort : Option String}
    {found : Option Nat} {r : ReplayedTurn}
    (h : s.outcome c (.cached sid messages effort found) = .replay (.ok (some r))) :
    ∃ st turn, s.object found = some st ∧ st.lastTurn = some turn ∧
      r = TokenStreamManager.replayOf st turn ∧ st.replays < c.maxTurnReplays := by
  simp only [SplitManager.outcome] at h
  split at h
  · cases h
  · cases h
  · next st turn hrep =>
    split at h
    · cases h
    · next hcap =>
      cases h
      obtain ⟨hst, hturn, _⟩ := TokenStreamManager.repeatedTurn_some hrep
      exact ⟨st, turn, hst, hturn, rfl, by omega⟩

/-- The state objects after one more replay of commit `n`. -/
theorem state_spend {n : Nat} {st : SessionState}
    (hst : s.objects[n]? = some st)
    (hs : ∀ (j : Nat) (x : SessionState), s.objects[j]? = some x →
      l.turns[j]? = some (x.lastTurn.map (TokenStreamManager.replayOf x)) ∧ l.spent j = x.replays)
    (j : Nat) (x : SessionState)
    (hx : (s.objects.set n { st with replays := st.replays + 1 })[j]? = some x) :
    (l.spend n).turns[j]? = some (x.lastTurn.map (TokenStreamManager.replayOf x)) ∧
      (l.spend n).spent j = x.replays := by
  have hn : n < s.objects.length := (List.getElem?_eq_some_iff.mp hst).1
  by_cases hj : j = n
  · subst hj
    rw [List.getElem?_set_self hn] at hx
    cases hx
    obtain ⟨hturn, hspent⟩ := hs j st hst
    exact ⟨hturn, by simp only [ReplayMap.spend, if_true, hspent]⟩
  · rw [List.getElem?_set_ne (Ne.symm hj)] at hx
    obtain ⟨hturn, hspent⟩ := hs j x hx
    exact ⟨hturn, by simp only [ReplayMap.spend, if_neg hj, hspent]⟩

/-- **A replay is a use exactly where its commit is still the session's current one.** -/
theorem Implements.spend (hi : Implements c s l) {t n : Nat} {sid : String} {st : SessionState}
    {turn : CommittedTurn} (hlook : l.lookups t = some (sid, n)) (hst : s.objects[n]? = some st)
    (hturn : st.lastTurn = some turn) (hcap : st.replays < c.maxTurnReplays) :
    ∃ l', ReplayMap.Step c.maxSessions c.maxTurnReplays ReplayMap.IsCurrent l
        (.served t sid n (TokenStreamManager.replayOf st turn)) l' ∧
      Implements c (s.spend t sid n st (TokenStreamManager.replayOf st turn)) l' := by
  obtain ⟨hturns, hspent⟩ := hi.state n st hst
  have hr : l.turns[n]? = some (some (TokenStreamManager.replayOf st turn)) := by
    rw [hturns, hturn]
    rfl
  have hs : l.spent n < c.maxTurnReplays := by rw [hspent]; exact hcap
  have hcount : (s.objects.set n { st with replays := st.replays + 1 }).length
      = (l.spend n).turns.length := by
    rw [List.length_set]
    exact hi.count
  by_cases hcur : s.sessions.get? sid = some n
  · have huse := hi.use hcur
    have hu : ReplayMap.IsCurrent l sid n := (hi.current sid).symm.trans hcur
    refine ⟨_, .servedUse hlook hr hs hu, ?_⟩
    unfold SplitManager.spend SplitManager.touchIfCurrent
    rw [if_pos hcur]
    exact { huse with
      count := hcount
      state := state_spend (l := { l with recency := l.recency.use sid }) hst hi.state }
  · have hu : ¬ ReplayMap.IsCurrent l sid n := fun e => hcur ((hi.current sid).trans e)
    refine ⟨_, .servedApart hlook hr hs hu, ?_⟩
    unfold SplitManager.spend SplitManager.touchIfCurrent
    rw [if_neg hcur]
    exact { hi with
      count := hcount
      state := state_spend hst hi.state }

theorem Refines.resume (h : Refines c s) {t : Nat} {call : PendingCall}
    (hcall : s.calls.get? t = some call) : Refines c (s.resume c t call) := by
  unfold SplitManager.resume
  split
  · next sid messages effort n r hout =>
    obtain ⟨l, hrun, hi⟩ := h
    obtain ⟨st, turn, hobj, hturn, rfl, hcap⟩ := outcome_served hout
    have hst : s.objects[n]? = some st := hobj
    obtain ⟨l', hstep, hi'⟩ := (hi.leave t _).spend (hi.pending t sid messages effort n hcall) hst
      hturn hcap
    rw [hst]
    exact ⟨l', .tail hrun hstep, hi'⟩
  · exact h.leave t _

/-- **A committed state replays the arguments of its commit.** -/
theorem committedState_replays (normalized : List Fields) (promptIds completionIds : List Int)
    (logProbs : Option (List PyFloat)) (finishReason : Option String) (engineMeta : EngineMeta)
    (tools : Json) (effort : Option String) :
    (s.committedState normalized promptIds completionIds logProbs finishReason engineMeta tools
        effort).lastTurn.map
      (TokenStreamManager.replayOf (s.committedState normalized promptIds completionIds logProbs
        finishReason engineMeta tools effort)) =
    replayable promptIds completionIds logProbs finishReason engineMeta := by
  cases completionIds with
  | nil => rfl
  | cons id ids =>
      cases logProbs with
      | none => rfl
      | some lps =>
          cases finishReason with
          | none => rfl
          | some reason =>
              have hne : id :: ids ≠ [] := List.cons_ne_nil _ _
              simp only [SplitManager.committedState, TokenStreamManager.lastTurnOf,
                TokenStreamManager.replayOf, replayable, Option.map_some, dropLastN_append hne,
                lastN_append hne]

/-- **A commit inserts its session as the one used last and evicts the oldest.** -/
theorem Refines.publish (h : Refines c s) (sid : String) {st : SessionState}
    {turn : Option ReplayedTurn} (hfresh : st.replays = 0)
    (hturn : st.lastTurn.map (TokenStreamManager.replayOf st) = turn) :
    Refines c (s.publish c sid st turn) := by
  obtain ⟨l, hrun, hi⟩ := h
  have hwf := hrun.wellFormed
  obtain ⟨rest, hev, hrep, hget⟩ := evictWhile_represents c.maxSessions
    ((s.sessions.set sid s.objects.length).moveToEnd sid).size
    ((s.sessions.set sid s.objects.length).moveToEnd sid) (s.evicted.erase sid)
    (l.recency.use sid) (hi.represents.set_moveToEnd sid s.objects.length) le_rfl
  have herase : (s.evicted.erase sid).size ≤ c.maxSessions :=
    (Dict.size_erase_le s.evicted sid).trans hi.evicted_size
  obtain ⟨hsize, hgone⟩ := evictWhile_evicted c.maxSessions
    ((s.sessions.set sid s.objects.length).moveToEnd sid).size
    ((s.sessions.set sid s.objects.length).moveToEnd sid) (s.evicted.erase sid) herase
  -- the abstract commit evicts what the loop evicted
  refine ⟨_, .tail hrun (.committed hev), {
    represents := hrep
    fits := hev.card_le
    current := fun k => ?_
    count := ?_
    state := fun n x hx => ?_
    pending := hi.pending
    evicted_gone := fun k hk => ?_
    evicted_size := hsize }⟩
  · refine (hget k).trans ?_
    rw [Dict.get?_moveToEnd, Dict.get?_set, hi.current k]
    simp only [hi.count]
  · simp only [SplitManager.publish, List.length_append, hi.count, List.length_singleton]
  · -- the new object is the last one
    rcases Nat.lt_trichotomy n s.objects.length with hn | hn | hn
    · simp only [SplitManager.publish] at hx
      rw [List.getElem?_append_left hn] at hx
      rw [List.getElem?_append_left (hi.count ▸ hn)]
      exact hi.state n x hx
    · subst hn
      simp only [SplitManager.publish, List.getElem?_append_right le_rfl, Nat.sub_self,
        List.getElem?_cons_zero, Option.some.injEq] at hx
      subst hx
      refine ⟨?_, ?_⟩
      · rw [hi.count, List.getElem?_append_right le_rfl, Nat.sub_self, List.getElem?_cons_zero, hturn]
      · rw [hfresh]
        exact hwf.fresh _ hi.count.ge
    · simp only [SplitManager.publish] at hx
      rw [List.getElem?_eq_none (by simp; omega)] at hx
      cases hx
  · simp only [Finset.mem_union, Finset.mem_erase, List.mem_toFinset]
    rcases hgone k hk with hk | hk
    · left
      simp only [Dict.contains, Dict.get?_erase] at hk
      by_cases hks : k = sid
      · rw [if_pos hks] at hk
        cases hk
      · rw [if_neg hks] at hk
        exact ⟨hks, hi.evicted_gone k hk⟩
    · exact .inr hk

theorem Refines.commit (h : Refines c s) (t : Nat) (sid : String) (messages : List Fields)
    (promptIds completionIds : List Int) (logProbs : Option (List PyFloat))
    (finishReason : Option String) (engineMeta : EngineMeta) (tools : Json)
    (effort : Option String) :
    Refines c (s.commit c t sid messages promptIds completionIds logProbs finishReason engineMeta
      tools effort) := by
  unfold SplitManager.commit
  split
  · exact h.leave t _
  · exact (h.publish sid rfl (committedState_replays _ _ _ _ _ _ _ _)).leave t _

theorem Refines.drop (h : Refines c s) (t : Nat) (sid : String) : Refines c (s.drop t sid) := by
  refine Refines.leave ?_ t _
  obtain ⟨l, hrun, hi⟩ := h
  refine ⟨_, .tail hrun .dropped, { hi with
    represents := hi.represents.erase sid
    fits := (Finset.card_erase_le).trans hi.fits
    current := fun k => ?_
    evicted_gone := fun k hk => ?_
    evicted_size := (Dict.size_erase_le s.evicted sid).trans hi.evicted_size }⟩
  · simp only [SplitManager.forget, Dict.get?_erase, hi.current k]
  · simp only [SplitManager.forget, Dict.contains, Dict.get?_erase] at hk
    simp only [Finset.mem_erase]
    by_cases hks : k = sid
    · rw [if_pos hks] at hk
      cases hk
    · rw [if_neg hks] at hk
      exact ⟨hks, hi.evicted_gone k hk⟩

/-- **One step of any call is at most one step of the map.** -/
theorem Refines.step (h : Refines c s) {e : SplitEvent} {s' : SplitManager}
    (hs : s.step c e = some s') : Refines c s' := by
  unfold SplitManager.step at hs
  split at hs
  · next t call hcall =>
    cases hs
    exact h.resume hcall
  · cases hs
  · cases hs
  · cases hs; exact h.lookupPrompt _ _ _ _ _
  · cases hs; exact h.lookupCached _ _ _ _
  · cases hs; exact h.lookupTurn _ _ _
  · cases hs; exact h.commit _ _ _ _ _ _ _ _ _ _
  · cases hs; exact h.drop _ _

theorem refines_of_interleaved (h : Interleaved c s) : Refines c s :=
  Steps.inv h (refines_empty c) fun _ _ _ ht hs _ => ht.step hs

/-! ## 5. Results -/

/-- A `cached_turn` that found commit `n` goes on. -/
def Repeats (s : SplitManager) (n : Nat) (e : SplitEvent) : Prop :=
  ∃ t sid messages effort, e = .resume t ∧
    s.calls.get? t = some (.cached sid messages effort (some n))

/-- A step changes of a state object its replay count at most, and that only in a replay. -/
theorem step_object {e : SplitEvent} {s' : SplitManager} (hs : s.step c e = some s') {n : Nat}
    {st : SessionState} (hst : s.objects[n]? = some st) :
    ∃ k, s'.objects[n]? = some { st with replays := k } ∧
      (¬ Repeats s n e → k = st.replays) := by
  have hkeep : ∀ {x : SplitManager}, x.objects = s.objects →
      ∃ k, x.objects[n]? = some { st with replays := k } ∧ (¬ Repeats s n e → k = st.replays) :=
    fun hx => ⟨st.replays, by rw [hx]; exact hst, fun _ => rfl⟩
  unfold SplitManager.step at hs
  split at hs
  · next t call hcall =>
    cases hs
    unfold SplitManager.resume
    split
    · next sid messages effort j r hout =>
      split
      · next st' hst' =>
        by_cases hj : j = n
        · subst hj
          have hlt : j < s.objects.length := (List.getElem?_eq_some_iff.mp hst).1
          rw [hst, Option.some.injEq] at hst'
          refine ⟨st.replays + 1, ?_, fun hn => absurd ⟨t, sid, messages, effort, rfl, hcall⟩ hn⟩
          simp only [SplitManager.spend, SplitManager.leave, List.getElem?_set_self hlt, ← hst']
        · refine ⟨st.replays, ?_, fun _ => rfl⟩
          simp only [SplitManager.spend, SplitManager.leave, List.getElem?_set_ne hj]
          exact hst
      · exact hkeep rfl
    · exact hkeep rfl
  · cases hs
  · cases hs
  · cases hs
    refine hkeep ?_
    unfold SplitManager.lookupPrompt
    split
    · rfl
    · split <;> rfl
  · cases hs
    refine hkeep ?_
    unfold SplitManager.lookupCached
    split <;> rfl
  · cases hs; exact hkeep rfl
  · cases hs
    unfold SplitManager.commit
    split
    · exact hkeep rfl
    · refine ⟨st.replays, ?_, fun _ => rfl⟩
      have hlt : n < s.objects.length := (List.getElem?_eq_some_iff.mp hst).1
      simp only [SplitManager.leave, SplitManager.publish, List.getElem?_append_left hlt]
      exact hst
  · cases hs; exact hkeep rfl

/-- A step of another call that replays no commit `call` waits to replay. -/
def Elsewhere (t : Nat) (call : PendingCall) (s : SplitManager) (e : SplitEvent) : Prop :=
  e.call ≠ t ∧ ∀ sid messages effort n, call = .cached sid messages effort (some n) →
    ¬ Repeats s n e

/-- The prompt of a state does not depend on its replays. -/
theorem promptFor_replays (sid : String) (st : SessionState) (k : Nat) (evicted : Bool)
    (normalized : List Fields) (tools : Json) (effort : Option String) :
    c.promptFor sid (some { st with replays := k }) evicted normalized tools effort =
      c.promptFor sid (some st) evicted normalized tools effort := rfl

/-- **A call under way keeps its result** across a step of another call. -/
theorem step_outcome {t : Nat} {call : PendingCall} {e : SplitEvent} {s' : SplitManager}
    (hg : Grounded s) (hcall : s.calls.get? t = some call) (hs : s.step c e = some s')
    (he : Elsewhere t call s e) : s'.outcome c call = s.outcome c call := by
  have hobj : ∀ n, call.found = some n →
      ∃ st k, s.objects[n]? = some st ∧ s'.objects[n]? = some { st with replays := k } ∧
        (¬ Repeats s n e → k = st.replays) := by
    intro n hn
    obtain ⟨st, hst⟩ : ∃ st, s.objects[n]? = some st :=
      ⟨_, List.getElem?_eq_getElem (hg.calls t call n hcall hn)⟩
    obtain ⟨k, hk⟩ := step_object hs hst
    exact ⟨st, k, hst, hk⟩
  cases call with
  | build sid normalized tools effort found evicted =>
      cases found with
      | none => rfl
      | some n =>
          obtain ⟨st, k, hst, hst', -⟩ := hobj n rfl
          simp only [SplitManager.outcome, SplitManager.object, Option.bind_some, hst, hst',
            promptFor_replays]
  | cached sid messages effort found =>
      cases found with
      | none => rfl
      | some n =>
          obtain ⟨st, k, hst, hst', hk⟩ := hobj n rfl
          have hk := hk (he.2 sid messages effort n rfl)
          subst hk
          simp only [SplitManager.outcome, SplitManager.object, Option.bind_some, hst, hst']
  | turn completionIds found =>
      cases found with
      | none => rfl
      | some n =>
          obtain ⟨st, k, hst, hst', -⟩ := hobj n rfl
          simp only [SplitManager.outcome, SplitManager.object, Option.bind_some, hst, hst']
          rfl

/-- Another call's step leaves a call under way. -/
theorem step_calls {t : Nat} {e : SplitEvent} {s' : SplitManager} (hs : s.step c e = some s')
    (he : e.call ≠ t) : s'.calls.get? t = s.calls.get? t := by
  unfold SplitManager.step at hs
  split at hs
  · next t' call _ =>
    cases hs
    unfold SplitManager.resume
    split
    · split <;> exact Dict.get?_erase_ne _ (Ne.symm he)
    · exact Dict.get?_erase_ne _ (Ne.symm he)
  · cases hs
  · cases hs
  · cases hs
    unfold SplitManager.lookupPrompt
    split
    · exact Dict.get?_erase_ne _ (Ne.symm he)
    · split
      · exact Dict.get?_erase_ne _ (Ne.symm he)
      · exact Dict.get?_erase_ne _ (Ne.symm he)
      · exact Dict.get?_set_ne _ _ (Ne.symm he)
  · cases hs
    unfold SplitManager.lookupCached
    split
    · exact Dict.get?_erase_ne _ (Ne.symm he)
    · exact Dict.get?_set_ne _ _ (Ne.symm he)
  · cases hs
    exact Dict.get?_set_ne _ _ (Ne.symm he)
  · cases hs
    unfold SplitManager.commit
    split
    · exact Dict.get?_erase_ne _ (Ne.symm he)
    · exact Dict.get?_erase_ne _ (Ne.symm he)
  · cases hs
    exact Dict.get?_erase_ne _ (Ne.symm he)

/-- **Whatever other calls do meanwhile**, a call that found its state returns the same. -/
theorem outcome_stable (h : Interleaved c s) {t : Nat} {call : PendingCall}
    (hcall : s.calls.get? t = some call) {s' : SplitManager}
    (hrun : Steps (SplitManager.step c) (fun u e _ => Elsewhere t call u e) s s') :
    s'.calls.get? t = some call ∧ s'.outcome c call = s.outcome c call := by
  have hinv := Steps.inv
    (I := fun u => Grounded u ∧ u.calls.get? t = some call ∧ u.outcome c call = s.outcome c call)
    hrun ⟨grounded_of_interleaved h, hcall, rfl⟩ fun u e u' hu hs he =>
      ⟨hu.1.step hs, (step_calls hs he.1).trans hu.2.1,
        (step_outcome hu.1 hu.2.1 hs he).trans hu.2.2⟩
  exact hinv.2

/-- **Only a commit inserts**: a session retained after a step was retained, or was committed. -/
theorem step_retained {e : SplitEvent} {s' : SplitManager} (hs : s.step c e = some s') {k : String}
    (hk : s'.sessions.contains k = true) :
    s.sessions.contains k = true ∨ e.commits k := by
  unfold SplitManager.step at hs
  split at hs
  · cases hs
    refine .inl ?_
    unfold SplitManager.resume at hk
    split at hk
    · split at hk
      · simpa only [SplitManager.spend, SplitManager.leave, Dict.contains, touchIfCurrent_get?]
          using hk
      · exact hk
    · exact hk
  · cases hs
  · cases hs
  · cases hs
    refine .inl ?_
    unfold SplitManager.lookupPrompt at hk
    split at hk
    · exact hk
    · split at hk
      · exact hk
      · exact hk
      · simpa only [Dict.contains, Dict.get?_moveToEnd] using hk
  · cases hs
    refine .inl ?_
    unfold SplitManager.lookupCached at hk
    split at hk <;> exact hk
  · cases hs; exact .inl hk
  · next t sid _ _ _ _ _ _ _ _ _ =>
    cases hs
    unfold SplitManager.commit at hk
    split at hk
    · exact .inl hk
    · obtain ⟨n, hn⟩ := (Dict.contains_eq_true_iff _ _).mp hk
      have hn' := evictWhile_get? _ _ _ hn
      rw [Dict.get?_moveToEnd] at hn'
      -- the eviction loop keeps no session that was not there
      by_cases hks : k = sid
      · subst hks
        exact .inr rfl
      · rw [Dict.get?_set_ne _ _ hks] at hn'
        exact .inl ((Dict.contains_eq_true_iff _ _).mpr ⟨n, hn'⟩)
  · cases hs
    refine .inl ?_
    simp only [SplitManager.drop, SplitManager.leave, SplitManager.forget, Dict.contains,
      Dict.get?_erase] at hk
    split at hk
    · cases hk
    · exact hk

/-! ## 6. The refinement -/

/-- **The manager is an LRU map with replay counters**, under every interleaving of its calls:
    its observations are a run of the map it implements, an evicted id is not retained, no commit
    is replayed more often than the cap, a call under way keeps its result whatever the others
    do, and only a commit inserts. -/
theorem splitManager_refines_lru (c : ManagerConfig) (s : SplitManager) (h : Interleaved c s) :
    (∃ l, ReplayMap.Run c.maxSessions c.maxTurnReplays ReplayMap.IsCurrent s.observed l ∧
      Implements c s l) ∧
    (∀ sid, s.evicted.contains sid = true → s.sessions.contains sid = false) ∧
    (∀ n, ReplayMap.servedOf n s.observed ≤ c.maxTurnReplays) ∧
    (∀ t call, s.calls.get? t = some call → ∀ s',
      Steps (SplitManager.step c) (fun u e _ => Elsewhere t call u e) s s' →
        s'.calls.get? t = some call ∧ s'.outcome c call = s.outcome c call) ∧
    ∀ e s' k, s.step c e = some s' → s'.sessions.contains k = true →
      s.sessions.contains k = true ∨ e.commits k := by
  obtain ⟨l, hrun, hi⟩ := refines_of_interleaved h
  have hwf := hrun.wellFormed
  refine ⟨⟨l, hrun, hi⟩, fun sid hsid => ?_, fun n => ?_,
    fun t call hcall s' => outcome_stable h hcall, fun e s' k hs hk => step_retained hs hk⟩
  · rw [Dict.contains_eq_false_iff, hi.current sid]
    cases hcur : l.current sid with
    | none => rfl
    | some n =>
        exact absurd ((hwf.domain sid).mpr ⟨n, hcur⟩) (hwf.apart sid (hi.evicted_gone sid hsid))
  · rw [hrun.servedOf_eq n]
    exact hwf.spent_le n

/-- A manager of two sessions. -/
def twoSessions : ManagerConfig := { flatConfig with maxSessions := 2 }

/-- The commit of a turn with one sampled token, by call `t`. -/
def commitsTurn (t : Nat) (sid : String) : SplitEvent :=
  .commit t sid [asks "q"] [2, 1] [3] (some [.finite 0]) (some "stop") .empty .null none

/-- Two sessions; `a` is replayed, `b` looked up, and the commit of `c` evicts `a`. -/
def replayThenEvict : List SplitEvent :=
  [commitsTurn 0 "a", commitsTurn 1 "b", .lookupCached 2 (some "a") [asks "q"] none, .resume 2,
    .lookupPrompt 3 (some "b") [asks "q", asks "r"] .null none, commitsTurn 4 "c"]

/-- What that run promises; the prompt of `b` is still being built at its end. -/
theorem splitManager_refines_lru_replayThenEvict : ∃ s,
    exec (SplitManager.step twoSessions) (fun _ _ _ => true) .empty replayThenEvict = some s ∧
    s.sessions.keys = ["b", "c"] ∧ s.evicted.contains "a" = true ∧
    ReplayMap.servedOf 0 s.observed = 1 ∧ s.calls.contains 3 = true ∧
    ((∃ l, ReplayMap.Run 2 4 ReplayMap.IsCurrent s.observed l ∧ Implements twoSessions s l) ∧
    (∀ sid, s.evicted.contains sid = true → s.sessions.contains sid = false) ∧
    (∀ n, ReplayMap.servedOf n s.observed ≤ 4) ∧
    (∀ t call, s.calls.get? t = some call → ∀ s',
      Steps (SplitManager.step twoSessions) (fun u e _ => Elsewhere t call u e) s s' →
        s'.calls.get? t = some call ∧
          s'.outcome twoSessions call = s.outcome twoSessions call) ∧
    ∀ e s' k, s.step twoSessions e = some s' → s'.sessions.contains k = true →
      s.sessions.contains k = true ∨ e.commits k) := by
  obtain ⟨s, hs, hkeys, hevicted, hserved, hcall⟩ : ∃ s,
      exec (SplitManager.step twoSessions) (fun _ _ _ => true) .empty replayThenEvict = some s ∧
        s.sessions.keys = ["b", "c"] ∧ s.evicted.contains "a" = true ∧
        ReplayMap.servedOf 0 s.observed = 1 ∧ s.calls.contains 3 = true :=
    ⟨_, rfl, rfl, rfl, rfl, rfl⟩
  exact ⟨s, hs, hkeys, hevicted, hserved, hcall,
    splitManager_refines_lru twoSessions s ((exec_steps hs).mono fun _ _ _ _ => trivial)⟩

end SplitManager

/-! ## 7. A replay of a replaced commit -/

theorem ReplayMap.Run.last {cap replays : Nat} {isUse : ReplayMap → String → Nat → Prop}
    {os : List Observation} {o : Observation} {l' : ReplayMap}
    (h : Run cap replays isUse (os ++ [o]) l') :
    ∃ l, Run cap replays isUse os l ∧ Step cap replays isUse l o l' := by
  generalize he : os ++ [o] = whole at h
  cases h with
  | start => simp at he
  | tail h hs =>
      obtain ⟨rfl, e⟩ := List.append_inj' he rfl
      cases e
      exact ⟨_, h, hs⟩

theorem ReplayMap.Run.nothing {cap replays : Nat} {isUse : ReplayMap → String → Nat → Prop}
    {l : ReplayMap} (h : Run cap replays isUse [] l) : l = ReplayMap.empty := by
  generalize he : ([] : List Observation) = os at h
  cases h with
  | start => rfl
  | tail h hs => simp at he

/-- A commit that does not overfill the map is a use of its session. -/
theorem ReplayMap.Step.commit_fits {cap replays : Nat}
    {isUse : ReplayMap → String → Nat → Prop} {l l' : ReplayMap} {sid : String}
    {turn : Option ReplayedTurn} (h : Step cap replays isUse l (.committed sid turn) l')
    (hfits : (l.recency.use sid).keys.card ≤ cap) : l'.recency = l.recency.use sid := by
  cases h with
  | committed hev => exact hev.eq_of_fits hfits

namespace SplitManager

/-- A replay of the first commit of `a` is served after `a` was committed again, and after `b`. -/
def replayOfReplaced : List SplitEvent :=
  [commitsTurn 0 "a", .lookupCached 1 (some "a") [asks "q"] none, commitsTurn 2 "a",
    commitsTurn 3 "b", .resume 1, commitsTurn 4 "c"]

/-- **Such a replay is served within the cap and is no use of its session**: the next commit
    evicts `a`, although `b` was used before the replay. -/
theorem replayOfReplaced_is_no_use :
    ¬ ∀ (c : ManagerConfig) (s : SplitManager), Interleaved c s →
      ∃ l, ReplayMap.Run c.maxSessions c.maxTurnReplays ReplayMap.IsRetained s.observed l ∧
        s.sessions.keys.toFinset = l.recency.keys := by
  intro hall
  obtain ⟨s, hs, hkeys, os, hos⟩ : ∃ s,
      exec (SplitManager.step twoSessions) (fun _ _ _ => true) .empty replayOfReplaced = some s ∧
        s.sessions.keys = ["b", "c"] ∧ ∃ turn r,
        s.observed = [] ++ [.committed "a" turn] ++ [.looked 1 "a" 0] ++ [.committed "a" turn] ++
          [.committed "b" turn] ++ [.served 1 "a" 0 r] ++ [.committed "c" turn] :=
    ⟨_, rfl, rfl, _, _, rfl⟩
  obtain ⟨r, hos⟩ := hos
  obtain ⟨l, hrun, hl⟩ := hall twoSessions s ((exec_steps hs).mono fun _ _ _ _ => trivial)
  rw [hos] at hrun
  obtain ⟨l₅, hrun, hs₆⟩ := hrun.last
  obtain ⟨l₄, hrun, hs₅⟩ := hrun.last
  obtain ⟨l₃, hrun, hs₄⟩ := hrun.last
  obtain ⟨l₂, hrun, hs₃⟩ := hrun.last
  obtain ⟨l₁, hrun, hs₂⟩ := hrun.last
  obtain ⟨l₀, hrun, hs₁⟩ := hrun.last
  have hr₀ : l₀.recency = .empty := by rw [hrun.nothing]; rfl
  have hr₁ : l₁.recency = Recency.empty.use "a" := by
    rw [hs₁.commit_fits (by rw [hr₀]; decide), hr₀]
  have hr₂ : l₂.recency = l₁.recency := by cases hs₂; rfl
  rw [hr₁] at hr₂
  have hr₃ : l₃.recency = (Recency.empty.use "a").use "a" := by
    rw [hs₃.commit_fits (by rw [hr₂]; decide), hr₂]
  have hr₄ : l₄.recency = ((Recency.empty.use "a").use "a").use "b" := by
    rw [hs₄.commit_fits (by rw [hr₃]; decide), hr₃]
  have hr₅ : l₅.recency = (((Recency.empty.use "a").use "a").use "b").use "a" := by
    cases hs₅ with
    | servedUse => rw [← hr₄]
    | servedApart _ _ _ hu =>
        refine absurd ?_ hu
        unfold ReplayMap.IsRetained
        rw [hr₄]
        decide
  -- in the map `b` is the oldest of three sessions, so `a` stays
  cases hs₆ with
  | committed hev =>
      rw [hr₅] at hev
      simp only [hkeys] at hl
      cases hev with
      | fits hfits => exact absurd hfits (by decide)
      | @evict _ _ k ks _ hold hrest =>
          have hkeep : k ≠ "a" := by
            rintro rfl
            exact absurd (hold.2 "b" (by decide)) (by decide)
          have ha : "a" ∈ (Recency.drop
              (((((Recency.empty.use "a").use "a").use "b").use "a").use "c") k).keys :=
            Finset.mem_erase.mpr ⟨hkeep.symm, by decide⟩
          have hcard : (Recency.drop
              (((((Recency.empty.use "a").use "a").use "b").use "a").use "c") k).keys.card ≤ 2 := by
            rw [Recency.drop, Finset.card_erase_of_mem hold.1]
            decide
          rw [← hrest.eq_of_fits hcard, ← hl] at ha
          exact absurd ha (by decide)

end SplitManager

end RolloutProxy
