/-
  File:      RolloutProxy/TokenStream/Continuation.lean
  Subject:   WHAT A BUILT PROMPT SAYS about the request it was built for.

  * `Extends`: the accepted history, one echo, and at least one new message (`newMessages_ok`).
  * `buildPrompt_ok`: a prompt is built for an opening, or it prolongs the committed stream and
    the request extends the committed messages, under the committed tools and effort.
-/
import RolloutProxy.TokenStream.Manager

namespace RolloutProxy

/-- `normalized` is `previous` with the same roles, an assistant echo and new messages, none of
    them an assistant's. -/
structure Extends (previous normalized : List Fields) (echo : Fields) (new : List Fields) :
    Prop where
  split : normalized = normalized.take previous.length ++ echo :: new
  roles : (normalized.take previous.length).map isAssistant = previous.map isAssistant
  echo : isAssistant echo = true
  fresh : ∀ m ∈ new, isAssistant m = false
  nonempty : new ≠ []

theorem sameMessage_role {p c : Fields} (h : sameMessage p c = true)
    (hp : supportedRoles.any (hasRole p) = true)
    (hc : p.get "content" = .null ∨ ∃ s, p.get "content" = .str s) : isAssistant c = isAssistant p := by
  unfold isAssistant hasRole
  rw [(sameMessage_fields hp hc h).1]

theorem modifiedAt_none : ∀ {i : Nat} {previous current : List Fields}, Normal previous →
    previous.length ≤ current.length → ManagerConfig.modifiedAt i previous current = none →
    (current.take previous.length).map isAssistant = previous.map isAssistant
  | _, [], _, _, _, _ => rfl
  | _, _ :: _, [], _, hl, _ => by simp at hl
  | i, p :: ps, m :: cur, hn, hl, h => by
      unfold ManagerConfig.modifiedAt at h
      split at h
      · next hsame =>
        obtain ⟨hr, hc⟩ := hn p (by simp)
        have ih := modifiedAt_none (fun x hx => hn x (by simp [hx])) (by simpa using hl) h
        simp only [List.length_cons, List.take_succ_cons, List.map_cons, ih,
          sameMessage_role hsame hr hc]
      · cases h

theorem gapRole_not_assistant {m : Fields} (h : ManagerConfig.gapRole m = true) :
    isAssistant m = false := by
  unfold ManagerConfig.gapRole at h
  rw [List.any_eq_true] at h
  obtain ⟨r, hr, hrole⟩ := h
  cases ha : isAssistant m with
  | false => rfl
  | true =>
      have := hasRole_unique ha hrole
      subst this
      simp at hr

/-- **An accepted continuation extends the history.** -/
theorem newMessages_ok {previous normalized new : List Fields} {echo : Fields}
    (hn : Normal previous) (h : ManagerConfig.newMessages previous normalized = .ok (echo, new)) :
    Extends previous normalized echo new := by
  unfold ManagerConfig.newMessages at h
  simp only at h
  split at h
  · cases h
  · next hlen =>
    split at h
    · cases h
    · next hmod =>
      split at h
      · cases h
      · next e rest hdrop =>
        split at h
        · cases h
        · next hass =>
          split at h
          · next hgap =>
            cases h
            have hsplit := List.take_append_drop previous.length normalized
            rw [hdrop] at hsplit
            refine ⟨hsplit.symm, modifiedAt_none hn (by omega) hmod, by simpa using hass, ?_, ?_⟩
            · intro m hm
              rw [List.filter_eq_nil_iff] at hgap
              exact gapRole_not_assistant (by simpa using hgap m hm)
            · rintro rfl
              have := congrArg List.length hdrop
              simp only [List.length_drop, List.length_singleton] at this
              omega
          · cases h

/-- `sum(1 for m in messages if m.get("role") != "assistant")` of an extension. -/
theorem Extends.count {previous normalized new : List Fields} {echo : Fields}
    (h : Extends previous normalized echo new) :
    normalized.countP (fun m => !isAssistant m) =
      previous.countP (fun m => !isAssistant m) + new.length := by
  have hpre : (normalized.take previous.length).countP (fun m => !isAssistant m) =
      previous.countP (fun m => !isAssistant m) := by
    have := congrArg (List.countP fun b => !b) h.roles
    rw [List.countP_map, List.countP_map] at this
    exact this
  have hnew : new.countP (fun m => !isAssistant m) = new.length := by
    rw [List.countP_eq_length]
    intro m hm
    simp [h.fresh m hm]
  conv_lhs => rw [h.split]
  rw [List.countP_append, List.countP_cons, hpre, hnew, h.echo]
  simp

theorem normalizeMessages_countP {ms out : List Fields} (h : normalizeMessages ms = .ok out) :
    out.countP (fun m => !isAssistant m) = ms.countP (fun m => !isAssistant m) := by
  have := congrArg (List.countP fun b => !b) (normalizeMessages_isAssistant h)
  rw [List.countP_map, List.countP_map] at this
  exact this

theorem findIdx?_isAssistant_none {l : List Fields} (h : l.findIdx? isAssistant = none) :
    l.any isAssistant = false := by
  rw [List.findIdx?_eq_none_iff] at h
  rw [List.any_eq_false]
  exact fun x hx => by simpa using h x hx

theorem findIdx?_isAssistant_some {l : List Fields} {i : Nat}
    (h : l.findIdx? isAssistant = some i) : l.any isAssistant = true := by
  cases ha : l.any isAssistant with
  | true => rfl
  | false =>
      rw [List.any_eq_false] at ha
      have : l.findIdx? isAssistant = none := by
        rw [List.findIdx?_eq_none_iff]
        exact fun x hx => by simpa using ha x hx
      rw [this] at h
      cases h

namespace TokenStreamManager

variable {c : ManagerConfig} {m : TokenStreamManager}

/-- A prompt that prolongs a committed stream. -/
structure Prolongs (c : ManagerConfig) (sid : String) (st : SessionState)
    (normalized : List Fields) (tools : Json) (effort : Option String) (ids : List Int) :
    Prop where
  tools : Json.pyEqItems (toolList tools) st.tools = true
  effort : effort = st.reasoningEffort
  delta : ∃ delta, c.deltaIds sid st normalized = .ok delta ∧ ids = st.stream ++ delta

/-- **A prompt is an opening's, or prolongs the stream.** -/
theorem buildPrompt_ok {sid : String} {messages : List Fields} {tools : Json}
    {effort : Option String} {ids : List Int}
    (h : (m.buildPrompt c (some sid) messages tools effort).1 = .ok ids) :
    ∃ normalized, normalizeMessages messages = .ok normalized ∧ validateTools tools = .ok () ∧
      ((messages.any isAssistant = false ∧ c.fullRender normalized tools effort = .ok ids) ∨
        ∃ st, m.sessions.get? sid = some st ∧ messages.any isAssistant = true ∧
          Prolongs c sid st normalized tools effort ids) := by
  unfold buildPrompt at h
  simp only at h
  split at h
  · simp at h
  · simp at h
  · next normalized hn hv =>
    refine ⟨normalized, hn, hv, ?_⟩
    simp only at h
    rw [← normalizeMessages_any hn]
    unfold ManagerConfig.promptFor at h
    split at h
    · next hnone =>
      refine .inl ⟨findIdx?_isAssistant_none hnone, ?_⟩
      split at h
      · exact h
      · split at h
        · simp at h
        · exact h
    · next i hsome =>
      split at h
      · split at h <;> simp at h
      · next st hst =>
        refine .inr ⟨st, hst, findIdx?_isAssistant_some hsome, ?_⟩
        by_cases ht : Json.pyEqItems (toolList tools) st.tools = true
        · simp only [ht, Bool.not_true, Bool.false_eq_true, if_false] at h
          obtain ⟨_, he, h⟩ := bind_ok h
          obtain ⟨delta, hd, h⟩ := bind_ok h
          cases h
          refine ⟨ht, ?_, delta, hd, rfl⟩
          unfold ManagerConfig.checkReasoningEffort at he
          split at he
          · cases he
          · next heff => simpa using heff
        · simp only [ht, Bool.not_false, if_true] at h
          simp [refuse, bind, Except.bind] at h

/-- The request behind such a prompt extends the committed messages. -/
theorem Prolongs.extends {sid : String} {st : SessionState} {normalized : List Fields}
    {tools : Json} {effort : Option String} {ids : List Int}
    (h : Prolongs c sid st normalized tools effort ids) (hn : Normal st.messages) :
    ∃ echo new, Extends st.messages normalized echo new := by
  obtain ⟨delta, hd, _⟩ := h.delta
  obtain ⟨⟨echo, new⟩, hnew, _⟩ := bind_ok hd
  exact ⟨echo, new, newMessages_ok hn hnew⟩

end TokenStreamManager

end RolloutProxy
