/-
  File:      RolloutProxy/Service/Keys.lean
  Subject:   KEYED API KEYS: `agent_key` (client.py) composes one, `parse_session_key` (service.py)
             reads it back.

  * `parse_iff`: what a token must be for the parser to return ids.
  * **`session_key_exact`**: composed keys come back, keys of another instance raise 412, and a
    token that is parsed has the documented form, unless one of its ids ends with a line break.
-/
import RolloutProxy.Service.Ids
import RolloutProxy.Lib.LastSplit
import RolloutProxy.Lib.Except
import RolloutProxy.Text

namespace RolloutProxy

/-! ## 1. Composing a key -/

/-- `s.rpartition(sep)`; `none` where the separator does not occur. -/
def splitLast (sep s : String) : Option (String × String) :=
  (rpartition sep.toList s.toList).map fun p => (String.ofList p.1, String.ofList p.2)

/-- `sep in s`. -/
def occursIn (sep s : String) : Bool := (splitLast sep s).isSome

/-- `re.fullmatch(r"[A-Za-z0-9._]{1,256}", value)`. -/
def isAgentId (s : String) : Bool :=
  s.toList.all isIdChar && 1 ≤ s.length && s.length ≤ 256

/-- `validate_instance_id`. -/
def validateInstanceId (s : String) : Except String Unit :=
  guardE (s.length == 32 && s.toList.all "0123456789abcdef".toList.contains)
    "Proxy instance ID must be a lowercase UUID hex string"

/-- `agent_key`. -/
def agentKey (apiKey session agent keyDelimiter : String) (instanceId : Option String) :
    Except String String := do
  guardE (keyDelimiter != "") "key_delimiter must not be empty"
  guardE (isAgentId session && !occursIn keyDelimiter session)
    "Invalid session or agent ID for the configured delimiter"
  guardE (isAgentId agent && !occursIn keyDelimiter agent)
    "Invalid session or agent ID for the configured delimiter"
  match instanceId with
  | none => return apiKey ++ keyDelimiter ++ session ++ keyDelimiter ++ agent
  | some instanceId =>
    validateInstanceId instanceId
    guardE (!occursIn keyDelimiter instanceId)
      "Proxy instance ID contains the key delimiter; use the instance header instead"
    return apiKey ++ keyDelimiter ++ instanceId ++ keyDelimiter ++ session ++ keyDelimiter ++ agent

/-! ## 2. Parsing a key -/

/-- An exception that answers a request. -/
structure HttpException where
  status : Nat
  detail : String
  deriving DecidableEq

/-- What `parse_session_key` reads of its server. -/
structure KeyServer where
  apiKey : Option String
  keyDelimiter : String
  instanceId : String

/-- `PROXY_RESTART_MESSAGE`, as the server raises it. -/
def proxyRestarted : HttpException :=
  ⟨412, "Proxy instance changed; recover with fresh sessions and synchronize again"⟩

namespace KeyServer

variable (srv : KeyServer)

/-- The checks on the ids; `found` says that the second delimiter was there. -/
def checkIds (found : Bool) (session agent : String) : Option (String × String) :=
  if found && isSessionId session && isSessionId agent then some (session, agent) else none

/-- `parse_session_key`. -/
def parseSessionKey (token : String) : Except HttpException (Option (String × String)) :=
  match srv.apiKey with
  | none => .ok none
  | some apiKey =>
    if apiKey = "" ∨ token = "" then .ok none else
    match splitLast srv.keyDelimiter token with
    | none => .ok none
    | some (head, agent) =>
      let (realKey, found, session) := match splitLast srv.keyDelimiter head with
        | none => ("", false, head)
        | some (realKey, session) => (realKey, true, session)
      if realKey = apiKey then .ok (checkIds found session agent) else
      match splitLast srv.keyDelimiter realKey with
      | none => .ok none
      | some (baseKey, bound) =>
        if baseKey ≠ apiKey then .ok none
        else if bound ≠ srv.instanceId then .error proxyRestarted
        else .ok (checkIds found session agent)

/-- A server with a real key, a delimiter that no id can contain, and its own instance id. -/
structure Keyed (key : String) : Prop where
  apiKey : srv.apiKey = some key
  nonempty : key ≠ ""
  delimiter : ∃ c ∈ srv.keyDelimiter.toList, ¬ isIdChar c = true
  instanceId : validateInstanceId srv.instanceId = .ok ()

end KeyServer

/-! ## 3. Ids and splits -/

/-- 1 to 256 characters of `[A-Za-z0-9._]`. -/
structure IsId (s : String) : Prop where
  chars : ∀ c ∈ s.toList, isIdChar c = true
  nonempty : 1 ≤ s.toList.length
  short : s.toList.length ≤ 256

theorem isAgentId_iff {s : String} : isAgentId s = true ↔ IsId s := by
  unfold isAgentId
  simp only [Bool.and_eq_true, List.all_eq_true, decide_eq_true_eq, ← String.length_toList]
  exact ⟨fun h => ⟨h.1.1, h.1.2, h.2⟩, fun h => ⟨⟨h.chars, h.nonempty⟩, h.short⟩⟩

/-- An id of the documented form does not end with a line break. -/
theorem IsId.unbroken {s : String} (h : IsId s) : s.toList.getLast? ≠ some '\n' := by
  intro hlast
  have hc := h.chars '\n' (List.mem_of_getLast? hlast)
  revert hc
  decide

/-- The server's pattern accepts an id, and an id in front of a line break. -/
theorem isSessionId_iff {s : String} :
    isSessionId s = true ↔ IsId s ∨ ∃ id, IsId id ∧ s = id ++ "\n" := by
  unfold isSessionId
  simp only [Bool.and_eq_true, List.all_eq_true, decide_eq_true_eq]
  by_cases hlast : s.toList.getLast? = some '\n'
  · rw [if_pos hlast]
    obtain ⟨body, hbody⟩ := List.getLast?_eq_some_iff.mp hlast
    rw [hbody, List.dropLast_concat]
    have hs : s = String.ofList body ++ "\n" := by
      apply String.ext
      rw [hbody, String.toList_append, String.toList_ofList]
      rfl
    constructor
    · rintro ⟨⟨hchars, hpos⟩, hshort⟩
      refine .inr ⟨String.ofList body, ⟨?_, ?_, ?_⟩, hs⟩ <;> rw [String.toList_ofList] <;>
        assumption
    · rintro (hid | ⟨id, hid, hsid⟩)
      · exact absurd hlast hid.unbroken
      · have hl : body = id.toList := by
          have := congrArg String.toList hsid
          rw [hbody, String.toList_append] at this
          exact (List.append_inj' this rfl).1
        rw [hl]
        exact ⟨⟨hid.chars, hid.nonempty⟩, hid.short⟩
  · rw [if_neg hlast]
    constructor
    · rintro ⟨⟨hchars, hpos⟩, hshort⟩
      exact .inl ⟨hchars, hpos, hshort⟩
    · rintro (hid | ⟨id, hid, rfl⟩)
      · exact ⟨⟨hid.chars, hid.nonempty⟩, hid.short⟩
      · refine absurd ?_ hlast
        rw [String.toList_append]
        exact List.getLast?_concat

/-- An id ends with a line break where it is one in front of a line break. -/
theorem ends_broken {id : String} : (id ++ "\n").toList.getLast? = some '\n' := by
  rw [String.toList_append]
  exact List.getLast?_concat

theorem splitLast_iff {sep s head tail : String} (hsep : sep ≠ "") :
    splitLast sep s = some (head, tail) ↔
      LastSplit sep.toList s.toList head.toList tail.toList := by
  have hne : sep.toList ≠ [] := fun h => hsep (String.ext h)
  rw [← rpartition_iff hne, splitLast, Option.map_eq_some_iff]
  constructor
  · rintro ⟨p, hp, heq⟩
    cases heq
    simpa using hp
  · exact fun h => ⟨_, h, by simp⟩

/-- `s` is `head`, the last delimiter, and `tail`. -/
def SplitsAt (sep s head tail : String) : Prop :=
  LastSplit sep.toList s.toList head.toList tail.toList

theorem SplitsAt.eq {sep s head tail : String} (h : SplitsAt sep s head tail) :
    s = head ++ sep ++ tail := by
  apply String.ext
  rw [String.toList_append, String.toList_append]
  exact h.split

/-- Behind a delimiter that no id can contain, the last occurrence is the one in front of an id. -/
theorem splitsAt_id {sep head tail : String} (hsep : ∃ c ∈ sep.toList, ¬ isIdChar c = true)
    (htail : ∀ c ∈ tail.toList, isIdChar c = true) : SplitsAt sep (head ++ sep ++ tail) head tail := by
  unfold SplitsAt
  rw [String.toList_append, String.toList_append]
  exact lastSplit_of_clear hsep htail

/-- The digits of an instance id are id characters. -/
theorem validateInstanceId_chars {id : String} (h : validateInstanceId id = .ok ()) :
    ∀ c ∈ id.toList, isIdChar c = true := by
  unfold validateInstanceId at h
  rw [guardE_ok, Bool.and_eq_true, List.all_eq_true] at h
  have hdigits : "0123456789abcdef".toList.all isIdChar = true := by decide
  intro c hc
  exact List.all_eq_true.mp hdigits c (List.contains_iff_mem.mp (h.2 c hc))

/-! ## 4. What the parser accepts -/

namespace KeyServer

variable {srv : KeyServer} {key token s a : String}

theorem Keyed.delimiter_ne (hk : srv.Keyed key) : srv.keyDelimiter ≠ "" := by
  obtain ⟨c, hc, -⟩ := hk.delimiter
  rintro h
  rw [h] at hc
  cases hc

/-- A longer key is another one. -/
theorem Keyed.ne_bound (hk : srv.Keyed key) (id : String) : key ++ srv.keyDelimiter ++ id ≠ key := by
  intro h
  have hlen := congrArg (fun t => t.toList.length) h
  simp only [String.toList_append, List.length_append] at hlen
  have hpos : srv.keyDelimiter.toList.length ≠ 0 := fun h0 =>
    hk.delimiter_ne (String.ext (List.length_eq_zero_iff.mp h0))
  omega

/-- The parser behind its two splits. -/
theorem Keyed.parse_splits (hk : srv.Keyed key) {head real : String}
    (hagent : SplitsAt srv.keyDelimiter token head a)
    (hsession : SplitsAt srv.keyDelimiter head real s) :
    srv.parseSessionKey token =
      if real = key then .ok (checkIds true s a) else
      match splitLast srv.keyDelimiter real with
      | none => .ok none
      | some (baseKey, bound) =>
        if baseKey ≠ key then .ok none
        else if bound ≠ srv.instanceId then .error proxyRestarted
        else .ok (checkIds true s a) := by
  have htoken : token ≠ "" := by
    rintro rfl
    have := hagent.split
    have hne : srv.keyDelimiter.toList ≠ [] := fun h => hk.delimiter_ne (String.ext h)
    simp [hne] at this
  have hopen : ¬ (key = "" ∨ token = "") := fun h => h.elim hk.nonempty htoken
  unfold parseSessionKey
  simp only [hk.apiKey, if_neg hopen, (splitLast_iff hk.delimiter_ne).mpr hagent,
    (splitLast_iff hk.delimiter_ne).mpr hsession]

theorem checkIds_some {found : Bool} {p : String × String} :
    checkIds found s a = some p ↔
      found = true ∧ isSessionId s = true ∧ isSessionId a = true ∧ p = (s, a) := by
  unfold checkIds
  split
  · next h =>
    simp only [Bool.and_eq_true] at h
    constructor
    · intro hp
      cases hp
      exact ⟨h.1.1, h.1.2, h.2, rfl⟩
    · rintro ⟨-, -, -, rfl⟩
      rfl
  · next h =>
    simp only [Bool.and_eq_true] at h
    exact iff_of_false nofun fun h' => h ⟨⟨h'.1, h'.2.1⟩, h'.2.2.1⟩

/-- What stands in front of the ids: the real key, also bound to this server. -/
def Front (srv : KeyServer) (key real : String) : Prop :=
  real = key ∨ real = key ++ srv.keyDelimiter ++ srv.instanceId

/-- **The parser returns ids exactly where the token splits into the real key, also bound to this
    server, and two ids its pattern accepts.** -/
theorem Keyed.parse_iff (hk : srv.Keyed key) :
    srv.parseSessionKey token = .ok (some (s, a)) ↔
      ∃ head real, SplitsAt srv.keyDelimiter token head a ∧
        SplitsAt srv.keyDelimiter head real s ∧ Front srv key real ∧
        isSessionId s = true ∧ isSessionId a = true := by
  constructor
  · intro h
    have hparsed := h
    unfold parseSessionKey at h
    simp only [hk.apiKey] at h
    split at h
    · cases h
    · split at h
      · cases h
      · next head agent hagent =>
        rw [splitLast_iff hk.delimiter_ne] at hagent
        cases hs : splitLast srv.keyDelimiter head with
        | none =>
          -- without a second delimiter there is no key to compare
          have hempty : splitLast srv.keyDelimiter "" = none := rfl
          simp only [hs, if_neg (Ne.symm hk.nonempty), hempty] at h
          cases h
        | some p =>
          obtain ⟨real, session⟩ := p
          have hsession := (splitLast_iff hk.delimiter_ne).mp hs
          rw [hk.parse_splits hagent hsession] at hparsed
          split at hparsed
          · next hreal =>
            obtain ⟨-, hsid, haid, hp⟩ := checkIds_some.mp (Except.ok.inj hparsed)
            cases hp
            exact ⟨head, real, hagent, hsession, .inl hreal, hsid, haid⟩
          · split at hparsed
            · cases hparsed
            · next baseKey bound hbound =>
              split at hparsed
              · cases hparsed
              · next hbase =>
                split at hparsed
                · cases hparsed
                · next hinstance =>
                  obtain ⟨-, hsid, haid, hp⟩ := checkIds_some.mp (Except.ok.inj hparsed)
                  cases hp
                  have hreal := SplitsAt.eq ((splitLast_iff hk.delimiter_ne).mp hbound)
                  rw [not_not.mp hbase, not_not.mp hinstance] at hreal
                  exact ⟨head, real, hagent, hsession, .inr hreal, hsid, haid⟩
  · rintro ⟨head, real, hagent, hsession, hfront, hsid, haid⟩
    have hids : checkIds true s a = some (s, a) := checkIds_some.mpr ⟨rfl, hsid, haid, rfl⟩
    rw [hk.parse_splits hagent hsession, hids]
    rcases hfront with rfl | rfl
    · rw [if_pos rfl]
    · have hsplit : splitLast srv.keyDelimiter (key ++ srv.keyDelimiter ++ srv.instanceId) =
          some (key, srv.instanceId) :=
        (splitLast_iff hk.delimiter_ne).mpr
          (splitsAt_id hk.delimiter (validateInstanceId_chars hk.instanceId))
      rw [if_neg (hk.ne_bound _), hsplit]
      simp

/-! ## 5. The grammar of keys -/

/-- What `agent_key` composes. -/
theorem agentKey_ok {delimiter : String} {instanceId : Option String}
    (h : agentKey key s a delimiter instanceId = .ok token) :
    IsId s ∧ IsId a ∧ (∀ id ∈ instanceId, validateInstanceId id = .ok ()) ∧
      token = (instanceId.elim key fun id => key ++ delimiter ++ id) ++ delimiter ++ s ++
        delimiter ++ a := by
  obtain ⟨_, -, h⟩ := bind_ok h
  obtain ⟨_, hs, h⟩ := bind_ok h
  obtain ⟨_, ha, h⟩ := bind_ok h
  rw [guardE_ok, Bool.and_eq_true] at hs ha
  cases instanceId with
  | none =>
    cases h
    exact ⟨isAgentId_iff.mp hs.1, isAgentId_iff.mp ha.1, nofun, rfl⟩
  | some id =>
    obtain ⟨_, hid, h⟩ := bind_ok h
    obtain ⟨_, -, h⟩ := bind_ok h
    cases h
    refine ⟨isAgentId_iff.mp hs.1, isAgentId_iff.mp ha.1, ?_, rfl⟩
    rintro _ ⟨⟩
    exact hid

/-- Ids in a row behind a delimiter that none of them contains. -/
theorem Keyed.splits (hk : srv.Keyed key) (real : String) (hs : IsId s) (ha : IsId a) :
    SplitsAt srv.keyDelimiter (real ++ srv.keyDelimiter ++ s ++ srv.keyDelimiter ++ a)
        (real ++ srv.keyDelimiter ++ s) a ∧
      SplitsAt srv.keyDelimiter (real ++ srv.keyDelimiter ++ s) real s :=
  ⟨splitsAt_id hk.delimiter ha.chars, splitsAt_id hk.delimiter hs.chars⟩

/-- **A composed key comes back**, unbound or bound to the server's own instance. -/
theorem Keyed.composed_parses (hk : srv.Keyed key) {instanceId : Option String}
    (hown : ∀ id ∈ instanceId, id = srv.instanceId)
    (h : agentKey key s a srv.keyDelimiter instanceId = .ok token) :
    srv.parseSessionKey token = .ok (some (s, a)) := by
  obtain ⟨hs, ha, -, rfl⟩ := agentKey_ok h
  obtain ⟨hagent, hsession⟩ := hk.splits (instanceId.elim key fun id => key ++ srv.keyDelimiter ++ id)
    hs ha
  refine hk.parse_iff.mpr ⟨_, _, hagent, hsession, ?_, isSessionId_iff.mpr (.inl hs),
    isSessionId_iff.mpr (.inl ha)⟩
  cases instanceId with
  | none => exact .inl rfl
  | some id => exact .inr (by rw [hown id rfl]; rfl)

/-- **A key bound to another instance is refused.** -/
theorem Keyed.stale_refused (hk : srv.Keyed key) {other : String} (hother : other ≠ srv.instanceId)
    (h : agentKey key s a srv.keyDelimiter (some other) = .ok token) :
    srv.parseSessionKey token = .error proxyRestarted := by
  obtain ⟨hs, ha, hid, rfl⟩ := agentKey_ok h
  obtain ⟨hagent, hsession⟩ := hk.splits (key ++ srv.keyDelimiter ++ other) hs ha
  have hsplit : splitLast srv.keyDelimiter (key ++ srv.keyDelimiter ++ other) = some (key, other) :=
    (splitLast_iff hk.delimiter_ne).mpr
      (splitsAt_id hk.delimiter (validateInstanceId_chars (hid other rfl)))
  rw [Option.elim_some, hk.parse_splits hagent hsession, if_neg (hk.ne_bound other), hsplit]
  simp [hother]

/-- What a token is parsed as, it says: the real key, also bound to this server, and two ids. -/
def Documented (srv : KeyServer) (key token : String) : Prop :=
  ∀ s a, srv.parseSessionKey token = .ok (some (s, a)) →
    (∃ real, Front srv key real ∧
      token = real ++ srv.keyDelimiter ++ s ++ srv.keyDelimiter ++ a) ∧ IsId s ∧ IsId a

/-- The token is a key whose session or agent id has a line break behind it. -/
def LineEnded (srv : KeyServer) (key token : String) : Prop :=
  ∃ head real s a, SplitsAt srv.keyDelimiter token head a ∧
    SplitsAt srv.keyDelimiter head real s ∧ Front srv key real ∧
    (IsId s ∨ ∃ id, IsId id ∧ s = id ++ "\n") ∧ (IsId a ∨ ∃ id, IsId id ∧ a = id ++ "\n") ∧
    (s.toList.getLast? = some '\n' ∨ a.toList.getLast? = some '\n')

/-- **The parser returns documented ids exactly for the tokens without such a line break.** -/
theorem Keyed.documented_iff (hk : srv.Keyed key) :
    Documented srv key token ↔ ¬ LineEnded srv key token := by
  constructor
  · rintro h ⟨head, real, s, a, hagent, hsession, hfront, hs, ha, hbroken⟩
    have hparsed := hk.parse_iff.mpr ⟨head, real, hagent, hsession, hfront,
      isSessionId_iff.mpr hs, isSessionId_iff.mpr ha⟩
    obtain ⟨-, hsid, haid⟩ := h s a hparsed
    exact hbroken.elim hsid.unbroken haid.unbroken
  · intro h s a hparsed
    obtain ⟨head, real, hagent, hsession, hfront, hs, ha⟩ := hk.parse_iff.mp hparsed
    rw [isSessionId_iff] at hs ha
    have hwhole : ∀ {id : String}, (IsId id ∨ ∃ body, IsId body ∧ id = body ++ "\n") →
        id.toList.getLast? ≠ some '\n' → IsId id := by
      rintro id (hid | ⟨body, -, rfl⟩) hlast
      · exact hid
      · exact absurd ends_broken hlast
    have hline := fun hb => h ⟨head, real, s, a, hagent, hsession, hfront, hs, ha, hb⟩
    refine ⟨⟨real, hfront, ?_⟩, hwhole hs fun hb => hline (.inl hb),
      hwhole ha fun hb => hline (.inr hb)⟩
    rw [hagent.eq, hsession.eq]

/-- **Keyed API keys.** Composed keys come back, also bound to the server's own instance, and keys
    of another instance raise 412. A token that is parsed has the documented form exactly where no
    id in it has a line break behind it. In every case the ids name one token stream for each
    agent, and a file in the session directory. -/
theorem session_key_exact (hk : srv.Keyed key) :
    (∀ s a token, agentKey key s a srv.keyDelimiter none = .ok token ∨
      agentKey key s a srv.keyDelimiter (some srv.instanceId) = .ok token →
        srv.parseSessionKey token = .ok (some (s, a))) ∧
    (∀ s a other token, other ≠ srv.instanceId →
      agentKey key s a srv.keyDelimiter (some other) = .ok token →
        srv.parseSessionKey token = .error proxyRestarted) ∧
    (∀ token, Documented srv key token ↔ ¬ LineEnded srv key token) ∧
    (∀ token token' s a s' a', srv.parseSessionKey token = .ok (some (s, a)) →
      srv.parseSessionKey token' = .ok (some (s', a')) → streamId s a = streamId s' a' →
        s = s' ∧ a = a') ∧
    (∀ token s a, srv.parseSessionKey token = .ok (some (s, a)) →
      s ≠ "" ∧ '/' ∉ s.toList ∧ Char.ofNat 0 ∉ s.toList) := by
  have hsessions : ∀ {token s a}, srv.parseSessionKey token = .ok (some (s, a)) →
      isSessionId s = true := fun h => by
    obtain ⟨_, _, -, -, -, hs, -⟩ := hk.parse_iff.mp h
    exact hs
  refine ⟨?_, ?_, fun token => hk.documented_iff, ?_, ?_⟩
  · rintro s a token (h | h)
    · refine hk.composed_parses ?_ h
      exact nofun
    · refine hk.composed_parses ?_ h
      rintro _ ⟨⟩
      rfl
  · exact fun s a other token hother h => hk.stale_refused hother h
  · exact fun token token' s a s' a' h h' heq => streamId_inj (hsessions h) (hsessions h') heq
  · intro token s a h
    -- the pattern lets through letters, digits, `.` and `_`, and one line break at the end
    have hchars : ∀ c, c ∈ s.toList → isIdChar c = true ∨ c = '\n' := by
      intro c hc
      rcases isSessionId_iff.mp (hsessions h) with hid | ⟨id, hid, rfl⟩
      · exact .inl (hid.chars c hc)
      · rw [String.toList_append] at hc
        rcases List.mem_append.mp hc with hc | hc
        · exact .inl (hid.chars c hc)
        · exact .inr (List.mem_singleton.mp hc)
    refine ⟨?_, fun hc => ?_, fun hc => ?_⟩
    · rintro rfl
      have hs := hsessions h
      revert hs
      decide
    · have := hchars _ hc
      revert this
      decide
    · have := hchars _ hc
      revert this
      decide

/-- A server with the key `k` and a delimiter that is two bars. -/
def barServer : KeyServer := ⟨some "k", "||", "0123456789abcdef0123456789abcdef"⟩

theorem barServer_keyed : barServer.Keyed "k" where
  apiKey := rfl
  nonempty := by decide
  delimiter := ⟨'|', by decide, by decide⟩
  instanceId := rfl

theorem session_key_exact_bars :
    Documented barServer "k" "k||s||a\n" ↔ ¬ LineEnded barServer "k" "k||s||a\n" :=
  (session_key_exact barServer_keyed).2.2.1 _

/-- The agent id that is returned for this token is not an id. -/
theorem line_break_parses : ¬ ∀ (srv : KeyServer) (key token s a : String), srv.Keyed key →
    srv.parseSessionKey token = .ok (some (s, a)) → IsId s ∧ IsId a := by
  intro h
  have hparsed : barServer.parseSessionKey "k||s||a\n" = .ok (some ("s", "a\n")) := by
    decide +kernel
  exact (h barServer "k" "k||s||a\n" "s" "a\n" barServer_keyed hparsed).2.unbroken rfl

end KeyServer

end RolloutProxy
