/-
  File:      RolloutProxy/Training/Conversations.lean
  Subject:   THE STREAMS OF A RECORD AND ITS TALLY, side by side: what `record_to_streams` has built
             after some turns, and what `validate_record_structure` has counted.

  * `Follows`: every agent's open stream is as long as its current conversation, its streams are
    numbered through, and the completions are the turns.
  * `Follows.run`: the loops keep it; `conversion_iff` takes a whole conversion apart.
-/
import RolloutProxy.Training.RawTurns
import RolloutProxy.Training.Batch

namespace RolloutProxy

/-! ## 1. The tally behind a turn -/

namespace Tally

variable {t : Tally} {agent : Option String} {reset : Bool} {n : Nat}

/-- How many conversations an agent had. -/
def count (t : Tally) (agent : Option String) : Nat := (t.conversations.get? agent).getD 0

/-- A turn that starts a conversation. -/
theorem turn_starts (h : t.lengths.get? agent = none ∨ reset = true) (b : Option String) :
    (t.turn agent reset n).lengths.get? b = (if b = agent then some n else t.lengths.get? b) ∧
      (t.turn agent reset n).count b = (if b = agent then t.count agent + 1 else t.count b) := by
  unfold turn add start length count
  rw [if_pos h]
  simp only [Dict.get?_set, if_true]
  constructor
  · split <;> simp
  · split <;> rfl

/-- A turn in the current conversation. -/
theorem turn_goes_on {m : Nat} (h : t.lengths.get? agent = some m) (hr : reset = false)
    (b : Option String) :
    (t.turn agent reset n).lengths.get? b = (if b = agent then some (m + n) else
      t.lengths.get? b) ∧ (t.turn agent reset n).count b = t.count b := by
  unfold turn add start length count
  rw [if_neg (by simp [h, hr])]
  simp only [Dict.get?_set, h, Option.getD_some, and_true]

end Tally

/-! ## 2. What is kept -/

/-- The completion is the span of a turn. -/
def RawTurn.SpannedBy (u : RawTurn) (c : TrainingCompletion) : Prop := ∃ n, c = u.spanAt n

/-- The streams built from the turns `us`, and their tally. -/
structure Follows (sid : Json) (roles : Roles) (blobs : Fields) (us : List RawTurn) (t : Tally)
    (st : StreamsState) : Prop where
  /-- an agent without a turn has no stream -/
  unknown : ∀ a, t.lengths.get? a = none → st.current.get? a = none ∧ t.count a = 0
  /-- an agent's open stream is its current conversation, and its last segment -/
  opened : ∀ a n, t.lengths.get? a = some n → ∃ i s, st.current.get? a = some i ∧
    st.streams[i]? = some s ∧ s.agentId = agentJson a ∧ s.tokens.length = n ∧
    ∃ k, t.count a = k + 1 ∧ s.segmentIndex = .int (k : Nat)
  /-- every stream is a known agent's, under its registered role -/
  owned : ∀ s ∈ st.streams, s.sessionId = sid ∧ ∃ a role, s.agentId = agentJson a ∧
    roleOf roles a = some role ∧ s.role = .str role ∧ t.lengths.get? a ≠ none
  numbered : ∀ a, segmentsOf st.streams (some a) =
    (List.range (t.count a)).map fun k => some (Int.ofNat k)
  /-- an agent with a capture has one conversation -/
  single : ∀ a, blobs.has a = true → t.count (some a) ≤ 1
  /-- every turn is a completion of its agent, and every completion a turn -/
  recorded : ∀ u ∈ us, ∃ s ∈ st.streams, s.agentId = agentJson u.agent ∧
    ∃ c ∈ s.completions, u.SpannedBy c
  spanned : ∀ s ∈ st.streams, ∀ c ∈ s.completions, ∃ u ∈ us, s.agentId = agentJson u.agent ∧
    u.SpannedBy c

theorem agentJson_inj {a b : Option String} (h : agentJson a = agentJson b) : a = b := by
  have := congrArg agentOf h
  simpa using this

/-- One more stream at the end. -/
theorem segmentsOf_append (l : List TrainingStream) (s : TrainingStream)
    (a : Option (Option String)) :
    segmentsOf (l ++ [s]) a = segmentsOf l a ++ if s.identity.1 = a then [s.identity.2] else [] := by
  unfold segmentsOf
  rw [List.filter_append, List.map_append]
  congr 1
  by_cases h : s.identity.1 = a <;> simp [h]

/-- Streams of the same identities have the same segments. -/
theorem segmentsOf_congr {l m : List TrainingStream}
    (h : l.map TrainingStream.identity = m.map TrainingStream.identity)
    (a : Option (Option String)) : segmentsOf l a = segmentsOf m a := by
  have hkey : ∀ l : List TrainingStream, segmentsOf l a =
      ((l.map TrainingStream.identity).filter fun x => x.1 = a).map Prod.snd := fun l => by
    unfold segmentsOf
    rw [List.filter_map, List.map_map]
    rfl
  rw [hkey, hkey, h]

/-- A stream replaced by one of the same identity. -/
theorem segmentsOf_set {l : List TrainingStream} {i : Nat} {s s' : TrainingStream}
    (hs : l[i]? = some s) (hid : s'.identity = s.identity) (a : Option (Option String)) :
    segmentsOf (l.set i s') a = segmentsOf l a := by
  refine segmentsOf_congr (List.ext_getElem? fun j => ?_) a
  rw [List.map_set, List.getElem?_set, hid]
  split
  · next he =>
    subst he
    have hlt : i < (l.map TrainingStream.identity).length := by
      rw [List.length_map]
      exact (List.getElem?_eq_some_iff.mp hs).1
    rw [if_pos hlt, List.getElem?_map, hs]
    rfl
  · rfl

/-- Where every agent's segments are distinct, so are the streams. -/
theorem identities_nodup : ∀ {l : List TrainingStream},
    (∀ a, (segmentsOf l a).Nodup) → (l.map TrainingStream.identity).Nodup
  | [], _ => List.nodup_nil
  | s :: l, h => by
      have hcons : ∀ a, segmentsOf (s :: l) a =
          (if s.identity.1 = a then [s.identity.2] else []) ++ segmentsOf l a := fun a => by
        unfold segmentsOf
        by_cases ha : s.identity.1 = a <;> simp [ha]
      rw [List.map_cons, List.nodup_cons]
      refine ⟨fun hmem => ?_, identities_nodup fun a => ?_⟩
      · obtain ⟨x, hx, he⟩ := List.mem_map.mp hmem
        have hs := h s.identity.1
        rw [hcons, if_pos rfl, List.singleton_append, List.nodup_cons] at hs
        refine hs.1 (List.mem_map.mpr ⟨x, List.mem_filter.mpr ⟨hx, ?_⟩, by rw [he]⟩)
        rw [he, decide_eq_true_eq]
      · have hs := h a
        rw [hcons] at hs
        exact hs.of_append_right

namespace Follows

variable {sid : Json} {roles : Roles} {blobs : Fields} {us : List RawTurn} {t : Tally}
  {st st' : StreamsState} {u : RawTurn}

theorem start : Follows sid roles blobs [] .empty .empty where
  unknown := fun _ _ => ⟨rfl, rfl⟩
  opened := fun _ _ h => by cases h
  owned := nofun
  numbered := fun _ => rfl
  single := fun _ _ => Nat.zero_le _
  recorded := nofun
  spanned := nofun

/-- **A conversation opens**: a stream of its own, numbered behind the agent's others. -/
theorem opens (h : Follows sid roles blobs us t st) {role : String}
    (hrole : roleOf roles u.agent = some role)
    (hstart : t.lengths.get? u.agent = none ∨ u.reset = true)
    (hsingle : u.agent.elim false blobs.has = true → t.count u.agent = 0) :
    Follows sid roles blobs (us ++ [u]) (u.tally t)
      { streams := st.streams ++ [u.extend (openStream sid u.agent role (t.count u.agent))]
        current := st.current.set u.agent st.streams.length } := by
  have hturn : ∀ b, (u.tally t).lengths.get? b =
      (if b = u.agent then some u.tokens.length else t.lengths.get? b) ∧
      (u.tally t).count b = (if b = u.agent then t.count u.agent + 1 else t.count b) :=
    fun b => Tally.turn_starts hstart b
  generalize hnew : u.extend (openStream sid u.agent role (t.count u.agent)) = new
  have hagent : new.agentId = agentJson u.agent := by rw [← hnew]; rfl
  have hident : new.identity = (some u.agent, some (t.count u.agent : Int)) := by
    rw [← hnew]
    unfold RawTurn.extend openStream TrainingStream.identity
    rw [agentOf_agentJson]
    rfl
  refine ⟨fun a ha => ?_, fun a n ha => ?_, fun s hs => ?_, fun a => ?_, fun a ha => ?_,
    fun v hv => ?_, fun s hs c hc => ?_⟩
  · rw [(hturn a).1] at ha
    split at ha
    · cases ha
    · next hne =>
      rw [(hturn a).2, if_neg hne, Dict.get?_set, if_neg hne]
      exact h.unknown a ha
  · rw [(hturn a).1] at ha
    rw [(hturn a).2]
    simp only [Dict.get?_set]
    split at ha
    · next he =>
      -- the turn's agent is at work on the new stream, every other one on its own
      cases ha
      subst he
      refine ⟨st.streams.length, new, by rw [if_pos rfl], ?_, hagent, ?_, t.count u.agent,
        by rw [if_pos rfl], ?_⟩
      · rw [List.getElem?_append_right le_rfl, Nat.sub_self]
        rfl
      · rw [← hnew]
        simp [RawTurn.extend, openStream]
      · rw [← hnew]
        rfl
    · next hne =>
      obtain ⟨i, s, hi, hs, hrest⟩ := h.opened a n ha
      rw [if_neg hne, if_neg hne]
      refine ⟨i, s, hi, ?_, hrest⟩
      rw [List.getElem?_append_left (List.getElem?_eq_some_iff.mp hs).1]
      exact hs
  · rcases List.mem_append.mp hs with hs | hs
    · obtain ⟨hsid, a, r, ha, hr, hrs, hk⟩ := h.owned s hs
      refine ⟨hsid, a, r, ha, hr, hrs, ?_⟩
      rw [(hturn a).1]
      split
      · exact fun hn => by cases hn
      · exact hk
    · rw [List.mem_singleton.mp hs]
      refine ⟨by rw [← hnew]; rfl, u.agent, role, hagent, hrole, by rw [← hnew]; rfl, ?_⟩
      rw [(hturn u.agent).1, if_pos rfl]
      exact fun hn => by cases hn
  · rw [segmentsOf_append, h.numbered, (hturn a).2, hident]
    -- the new segment has the agent's next number
    by_cases he : a = u.agent
    · subst he
      rw [if_pos rfl, if_pos rfl, List.range_succ, List.map_append]
      rfl
    · rw [if_neg (fun hs => he (Option.some.inj hs).symm), if_neg he, List.append_nil]
  · rw [(hturn (some a)).2]
    split
    · next he =>
      rw [hsingle (by rw [← he]; exact ha)]
    · exact h.single a ha
  · rcases List.mem_append.mp hv with hv | hv
    · obtain ⟨s, hs, hrest⟩ := h.recorded v hv
      exact ⟨s, List.mem_append_left _ hs, hrest⟩
    · rw [List.mem_singleton.mp hv]
      refine ⟨new, List.mem_append_right _ (List.mem_singleton.mpr rfl), hagent, _, ?_, 0, rfl⟩
      rw [← hnew]
      exact List.mem_singleton.mpr rfl
  · rcases List.mem_append.mp hs with hs | hs
    · obtain ⟨v, hv, hrest⟩ := h.spanned s hs c hc
      exact ⟨v, List.mem_append_left _ hv, hrest⟩
    · rw [List.mem_singleton.mp hs, ← hnew] at hc ⊢
      exact ⟨u, List.mem_append_right _ (List.mem_singleton.mpr rfl), rfl, 0,
        List.mem_singleton.mp hc⟩

/-- **A conversation goes on**: its stream is the agent's open one. -/
theorem goes_on (h : Follows sid roles blobs us t st) {i : Nat} {s : TrainingStream}
    (hi : st.current.get? u.agent = some i) (hs : st.streams[i]? = some s)
    (hreset : u.reset = false) :
    Follows sid roles blobs (us ++ [u]) (u.tally t)
      { st with streams := st.streams.set i (u.extend s) } := by
  obtain ⟨m, hm⟩ : ∃ m, t.lengths.get? u.agent = some m := by
    cases hl : t.lengths.get? u.agent with
    | none =>
      rw [(h.unknown u.agent hl).1] at hi
      cases hi
    | some m => exact ⟨m, rfl⟩
  obtain ⟨j, s', hj, hs', hsa, hlen, k, hk, hseg⟩ := h.opened u.agent m hm
  rw [hi] at hj
  cases hj
  rw [hs] at hs'
  cases hs'
  have hturn : ∀ b, (u.tally t).lengths.get? b =
      (if b = u.agent then some (m + u.tokens.length) else t.lengths.get? b) ∧
      (u.tally t).count b = t.count b := fun b => Tally.turn_goes_on hm hreset b
  obtain ⟨hilt, hget⟩ := List.getElem?_eq_some_iff.mp hs
  have hnew : u.extend s ∈ st.streams.set i (u.extend s) := List.mem_set hilt _
  -- any other stream is as it was, and the extended one is `s` with one completion more
  have hold : ∀ x ∈ st.streams, ∃ y ∈ st.streams.set i (u.extend s),
      y.agentId = x.agentId ∧ ∀ c ∈ x.completions, c ∈ y.completions := fun x hx => by
    obtain ⟨j, hj⟩ := List.mem_iff_getElem?.mp hx
    by_cases he : j = i
    · subst he
      rw [hs] at hj
      cases hj
      exact ⟨u.extend s, hnew, rfl, fun c hc => List.mem_append_left _ hc⟩
    · refine ⟨x, List.mem_iff_getElem?.mpr ⟨j, ?_⟩, rfl, fun c hc => hc⟩
      rw [List.getElem?_set_ne (Ne.symm he)]
      exact hj
  refine ⟨fun a ha => ?_, fun a n ha => ?_, fun x hx => ?_, fun a => ?_, fun a ha => ?_,
    fun v hv => ?_, fun x hx c hc => ?_⟩
  · rw [(hturn a).1] at ha
    split at ha
    · cases ha
    · rw [(hturn a).2]
      exact h.unknown a ha
  · rw [(hturn a).1] at ha
    rw [(hturn a).2]
    split at ha
    · next he =>
      cases ha
      subst he
      refine ⟨i, u.extend s, hi, ?_, hsa, ?_, k, hk, hseg⟩
      · rw [List.getElem?_set_self hilt]
      · simp [RawTurn.extend, hlen]
    · next hne =>
      obtain ⟨j, x, hj, hx, hxa, hrest⟩ := h.opened a n ha
      refine ⟨j, x, hj, ?_, hxa, hrest⟩
      rw [List.getElem?_set_ne fun he => hne ?_]
      · exact hx
      · subst he
        rw [hs] at hx
        cases hx
        exact agentJson_inj (hxa.symm.trans hsa)
  · have hknown : ∀ a, t.lengths.get? a ≠ none → (u.tally t).lengths.get? a ≠ none := fun a ha => by
      rw [(hturn a).1]
      split
      · exact fun hn => by cases hn
      · exact ha
    rcases List.mem_or_eq_of_mem_set hx with hx | rfl
    · obtain ⟨hsid, a, r, ha, hr, hrs, hk⟩ := h.owned x hx
      exact ⟨hsid, a, r, ha, hr, hrs, hknown a hk⟩
    · obtain ⟨hsid, a, r, ha, hr, hrs, hk⟩ := h.owned s (hget ▸ List.getElem_mem hilt)
      exact ⟨hsid, a, r, ha, hr, hrs, hknown a hk⟩
  · have hid : (u.extend s).identity = s.identity := rfl
    rw [segmentsOf_set hs hid, h.numbered, (hturn a).2]
  · rw [(hturn (some a)).2]
    exact h.single a ha
  · rcases List.mem_append.mp hv with hv | hv
    · obtain ⟨x, hx, hxa, c, hc, hspan⟩ := h.recorded v hv
      obtain ⟨y, hy, hya, hyc⟩ := hold x hx
      exact ⟨y, hy, hya.trans hxa, c, hyc c hc, hspan⟩
    · rw [List.mem_singleton.mp hv]
      exact ⟨u.extend s, hnew, hsa, u.spanAt s.tokens.length,
        List.mem_append_right _ (List.mem_singleton.mpr rfl), _, rfl⟩
  · rcases List.mem_or_eq_of_mem_set hx with hx | rfl
    · obtain ⟨v, hv, hrest⟩ := h.spanned x hx c hc
      exact ⟨v, List.mem_append_left _ hv, hrest⟩
    · rcases List.mem_append.mp hc with hc | hc
      · obtain ⟨v, hv, hrest⟩ := h.spanned s (hget ▸ List.getElem_mem hilt) c hc
        exact ⟨v, List.mem_append_left _ hv, hrest⟩
      · exact ⟨u, List.mem_append_right _ (List.mem_singleton.mpr rfl), hsa, _,
          List.mem_singleton.mp hc⟩

/-- **One turn.** -/
theorem step (h : Follows sid roles blobs us t st)
    (ha : Adds sid roles true blobs st u st') : Follows sid roles blobs (us ++ [u]) (u.tally t) st' := by
  cases ha with
  | first hrole hnew =>
    have hnone : t.lengths.get? u.agent = none := by
      cases hl : t.lengths.get? u.agent with
      | none => rfl
      | some n =>
        obtain ⟨i, s, hi, hs, -⟩ := h.opened u.agent n hl
        rw [hi, Option.bind_some, hs] at hnew
        cases hnew
    have hcount := (h.unknown u.agent hnone).2
    rw [← hcount]
    exact h.opens hrole (.inl hnone) fun _ => hcount
  | @reset role i s hrole hi hs hreset _ hblob =>
    obtain ⟨n, hn⟩ : ∃ n, t.lengths.get? u.agent = some n := by
      cases hl : t.lengths.get? u.agent with
      | none =>
        rw [(h.unknown u.agent hl).1] at hi
        cases hi
      | some n => exact ⟨n, rfl⟩
    obtain ⟨j, s', hj, hs', -, -, k, hk, hseg⟩ := h.opened u.agent n hn
    rw [hi] at hj
    cases hj
    rw [hs] at hs'
    cases hs'
    have hnext : nextSegment s = t.count u.agent := by
      unfold nextSegment
      rw [hseg, hk]
      rfl
    rw [hnext]
    exact h.opens hrole (.inr hreset) fun hb => by
      rw [hblob] at hb
      cases hb
  | more hrole hi hs hreset => exact h.goes_on hi hs hreset

/-- **The run over the turns.** -/
theorem run : ∀ {later us : List RawTurn} {t : Tally} {st st' : StreamsState},
    Follows sid roles blobs us t st → AddsTurns sid roles true blobs st later st' →
      Follows sid roles blobs (us ++ later) (tallyTurns t later) st'
  | [], us, _, _, _, h, ha => by
      cases ha
      rw [List.append_nil]
      exact h
  | u :: later, us, t, st, st', h, ⟨_, hu, ha⟩ => by
      have hrest := (h.step hu).run ha
      rw [List.append_assoc] at hrest
      exact hrest

end Follows

/-! ## 3. A whole conversion -/

theorem finishStreams_iff {req : Bool} {blobs : Fields} : ∀ {l out : List TrainingStream},
    finishStreams req blobs l = .ok out ↔
      out = l.map (attachBlob blobs) ∧ ∀ s ∈ out, s.validate req = .ok ()
  | [], out => by
      constructor
      · intro h
        cases h
        exact ⟨rfl, nofun⟩
      · rintro ⟨rfl, -⟩
        rfl
  | s :: rest, out => by
      constructor
      · intro h
        obtain ⟨_, hs, h⟩ := bind_ok h
        obtain ⟨more, hrest, h⟩ := bind_ok h
        cases h
        obtain ⟨rfl, hall⟩ := finishStreams_iff.mp hrest
        exact ⟨rfl, List.forall_mem_cons.mpr ⟨hs, hall⟩⟩
      · rintro ⟨rfl, hall⟩
        obtain ⟨hs, hall⟩ := List.forall_mem_cons.mp hall
        unfold finishStreams
        simp only [hs, ok_bind, finishStreams_iff.mpr ⟨rfl, hall⟩]
        rfl

/-- What a conversion has read and built. -/
structure Conversion (record : Json) (roles : Roles) (req : Bool) (streams : List TrainingStream)
    (fields : Fields) (turns : List Json) (blobs : Fields) (us : List RawTurn)
    (st : StreamsState) : Prop where
  recordIs : record = .obj fields
  turnsAre : Fields.get fields "turns" = .arr turns
  blobsAre : Fields.getD fields "routed_experts" (.obj []) = .obj blobs
  rolesOk : checkRoles roles = .ok ()
  sessionOk : checkName (Fields.get fields "session_id") "session_id" = .ok ()
  read : List.Forall₂ ReadAs turns us
  accepted : Accepted .empty us
  captures : checkCaptures none req (tallyTurns .empty us) (blobs.map fun e => (some e.1, e.2)) =
    .ok ()
  adds : AddsTurns (Fields.get fields "session_id") roles true blobs .empty us st
  built : streams = st.streams.map (attachBlob blobs)
  valid : ∀ s ∈ streams, s.validate req = .ok ()

/-- **A conversion**, taken apart. -/
theorem conversion_iff {record : Json} {roles : Roles} {req : Bool} {streams : List TrainingStream} :
    recordToStreams record roles true req = .ok streams ↔
      ∃ fields turns blobs us st, Conversion record roles req streams fields turns blobs us st := by
  constructor
  · intro h
    unfold recordToStreams at h
    obtain ⟨_, hroles, h⟩ := bind_ok h
    obtain ⟨_, hrecord, h⟩ := bind_ok h
    cases record with
    | obj fields =>
      obtain ⟨_, hsid, h⟩ := bind_ok h
      simp only [validateRecordStructure] at hrecord
      split at hrecord
      · next turns hturns =>
        obtain ⟨t, ht, hrecord⟩ := bind_ok hrecord
        split at hrecord
        · next blobs hblobs =>
          obtain ⟨st, hst, h⟩ := bind_ok h
          obtain ⟨us, hread, haccepted, rfl⟩ := checkTurns_iff.mp ht
          rw [hturns, hblobs] at hst
          rw [hblobs] at h
          obtain ⟨hbuilt, hvalid⟩ := finishStreams_iff.mp h
          exact ⟨fields, turns, blobs, us, st, rfl, hturns, hblobs, hroles, hsid, hread, haccepted,
            hrecord, (addTurns_iff hread).mp hst, hbuilt, hvalid⟩
        · cases hrecord
      · cases hrecord
    | _ => cases hrecord
  · rintro ⟨fields, turns, blobs, us, st, hrecord, hturns, hblobs, hroles, hsid, hread, haccepted,
      hcaptures, hadds, hbuilt, hvalid⟩
    have hst := (addTurns_iff hread).mpr hadds
    unfold recordToStreams
    rw [hrecord]
    simp only [hroles, validateRecordStructure, hturns, hblobs, hsid, ok_bind, itemsOf, hst,
      checkTurns_iff.mpr ⟨us, hread, haccepted, rfl⟩, hcaptures,
      finishStreams_iff.mpr ⟨hbuilt, hvalid⟩]

/-- The streams of a conversion follow its turns. -/
theorem Conversion.follows {record : Json} {roles : Roles} {req : Bool}
    {streams : List TrainingStream} {fields : Fields} {turns : List Json} {blobs : Fields}
    {us : List RawTurn} {st : StreamsState}
    (h : Conversion record roles req streams fields turns blobs us st) :
    Follows (Fields.get fields "session_id") roles blobs us (tallyTurns .empty us) st :=
  Follows.start.run h.adds

end RolloutProxy
