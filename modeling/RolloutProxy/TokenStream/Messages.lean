/-
  File:      RolloutProxy/TokenStream/Messages.lean
  Subject:   THE MESSAGES OF A REQUEST: `normalize_messages`, `validate_tools`, the equality of
             two turns and the extension check (token_stream.py).

  A message is a decoded JSON object. Normalizing replaces text-only multi-part content by one
  string and gives an assistant message with tool calls and null content the empty text; every
  other field stays, and so does the role (`normalizeMessage_role`), which is what the recorder
  and the stream manager read to tell an assistant echo from a new message.
-/
import RolloutProxy.Errors
import RolloutProxy.Json

namespace RolloutProxy

/-- `msg.get("role") == role`. -/
def hasRole (msg : Fields) (role : String) : Bool :=
  match msg.get "role" with
  | .str s => s == role
  | _ => false

/-- `msg.get("role") == "assistant"`. -/
def isAssistant (msg : Fields) : Bool := hasRole msg "assistant"

/-- The role as text, for error messages. -/
def roleText (msg : Fields) : String := ((msg.get "role").asStr).getD "None"

def supportedRoles : List String := ["system", "developer", "user", "assistant", "tool"]

/-! ## 1. `normalize_messages` -/

/-- One content part: a string, or an object of type text. -/
def partText : Json → Option String
  | .str s => some s
  | .obj part =>
    if (Fields.get part "type").pyEq (.str "text") then (Fields.get part "text").asStr else none
  | _ => none

/-- The texts of the parts, `none` if one of them is not text. -/
def textParts : List Json → Option (List String)
  | [] => some []
  | p :: ps =>
    match partText p, textParts ps with
    | some t, some ts => some (t :: ts)
    | _, _ => none

/-- An assistant message that carries tool calls has text content. -/
def fillToolCallContent (msg : Fields) : Fields :=
  if isAssistant msg && msg.has "tool_calls" && (msg.get "content").isNull then
    msg.set "content" (.str "")
  else msg

/-- The body of the loop of `normalize_messages` for `messages[index]`. -/
def normalizeMessage (index : Nat) (msg : Fields) : Except TokenStreamError Fields :=
  if supportedRoles.any (hasRole msg) then
    match msg.get "content" with
    | .null => .ok (fillToolCallContent msg)
    | .str _ => .ok (fillToolCallContent msg)
    | .arr parts =>
      match textParts parts with
      | some texts => .ok (fillToolCallContent (msg.set "content" (.str (joinWith "\n" texts))))
      | none => .error (.unsupportedPart index)
    | _ => .error (.badContent index)
  else .error (.unsupportedRole index)

def normalizeFrom : Nat → List Fields → Except TokenStreamError (List Fields)
  | _, [] => .ok []
  | i, m :: ms =>
    match normalizeMessage i m with
    | .error e => .error e
    | .ok m' =>
      match normalizeFrom (i + 1) ms with
      | .error e => .error e
      | .ok ms' => .ok (m' :: ms')

/-- `normalize_messages` on a list of message objects. -/
def normalizeMessages (messages : List Fields) : Except TokenStreamError (List Fields) :=
  normalizeFrom 0 messages

/-! ## 2. What normalizing keeps -/

theorem get_role_fill (m : Fields) : (fillToolCallContent m).get "role" = m.get "role" := by
  unfold fillToolCallContent
  split
  · exact Fields.get_set_ne _ _ (by decide)
  · rfl

/-- **A normalized message has the role it came with.** -/
theorem normalizeMessage_role {i : Nat} {m m' : Fields} (h : normalizeMessage i m = .ok m') :
    m'.get "role" = m.get "role" := by
  unfold normalizeMessage at h
  split at h
  · split at h
    · cases h; exact get_role_fill m
    · cases h; exact get_role_fill m
    · split at h
      · cases h
        rw [get_role_fill]
        exact Fields.get_set_ne _ _ (by decide)
      · cases h
    · cases h
  · cases h

theorem normalizeMessage_isAssistant {i : Nat} {m m' : Fields}
    (h : normalizeMessage i m = .ok m') : isAssistant m' = isAssistant m := by
  unfold isAssistant hasRole
  rw [normalizeMessage_role h]

/-- A supported role is text. -/
theorem normalizeMessage_supported {i : Nat} {m m' : Fields}
    (h : normalizeMessage i m = .ok m') : supportedRoles.any (hasRole m') = true := by
  have hr := normalizeMessage_role h
  unfold normalizeMessage at h
  split at h
  · next hs =>
    have he : hasRole m' = hasRole m := by
      funext r
      simp only [hasRole, hr]
    rw [he]
    exact hs
  · cases h

theorem normalizeFrom_cons {i : Nat} {m : Fields} {ms out : List Fields}
    (h : normalizeFrom i (m :: ms) = .ok out) :
    ∃ m' ms', normalizeMessage i m = .ok m' ∧ normalizeFrom (i + 1) ms = .ok ms' ∧
      out = m' :: ms' := by
  simp only [normalizeFrom] at h
  split at h
  · cases h
  · next m' hm =>
    split at h
    · cases h
    · next ms' hms =>
      cases h
      exact ⟨m', ms', hm, hms, rfl⟩

/-- Normalizing keeps the assistant positions. -/
theorem normalizeFrom_isAssistant : ∀ {i : Nat} {ms out : List Fields},
    normalizeFrom i ms = .ok out → out.map isAssistant = ms.map isAssistant
  | _, [], out, h => by cases h; rfl
  | i, m :: ms, out, h => by
      obtain ⟨m', ms', hm, hms, rfl⟩ := normalizeFrom_cons h
      simp only [List.map_cons, normalizeMessage_isAssistant hm, normalizeFrom_isAssistant hms]

theorem normalizeMessages_isAssistant {ms out : List Fields} (h : normalizeMessages ms = .ok out) :
    out.map isAssistant = ms.map isAssistant := normalizeFrom_isAssistant h

theorem normalizeMessages_any {ms out : List Fields} (h : normalizeMessages ms = .ok out) :
    out.any isAssistant = ms.any isAssistant := by
  have e := normalizeMessages_isAssistant h
  have e' := congrArg (fun l => l.any id) e
  simpa [List.any_map] using e'

theorem normalizeFrom_supported : ∀ {i : Nat} {ms out : List Fields},
    normalizeFrom i ms = .ok out → ∀ m ∈ out, supportedRoles.any (hasRole m) = true
  | _, [], out, h => by cases h; simp
  | i, m :: ms, out, h => by
      obtain ⟨m', ms', hm, hms, rfl⟩ := normalizeFrom_cons h
      intro x hx
      rcases List.mem_cons.mp hx with rfl | hx
      · exact normalizeMessage_supported hm
      · exact normalizeFrom_supported hms x hx

/-! ## 3. Equality of messages -/

/-- `l == m` on two message lists. -/
def sameMessages (l m : List Fields) : Bool := Json.pyEqItems (l.map .obj) (m.map .obj)

/-- `_same_message`: the same turn of a conversation. -/
def sameMessage (prev cur : Fields) : Bool :=
  (prev.get "role").pyEq (cur.get "role") && (prev.get "content").pyEq (cur.get "content")

/-- `_extends_conversation`: `candidate` strictly extends `previous`. -/
def extendsConversation (previous candidate : List Fields) : Bool :=
  previous.length < candidate.length &&
    (previous.zip candidate).all fun pc => sameMessage pc.1 pc.2

/-- Normalized content is text or null. -/
theorem normalizeMessage_content {i : Nat} {m m' : Fields} (h : normalizeMessage i m = .ok m') :
    m'.get "content" = .null ∨ ∃ s, m'.get "content" = .str s := by
  have fill : ∀ x : Fields, (x.get "content" = .null ∨ ∃ s, x.get "content" = .str s) →
      (fillToolCallContent x).get "content" = .null ∨
        ∃ s, (fillToolCallContent x).get "content" = .str s := by
    intro x hx
    unfold fillToolCallContent
    split
    · exact .inr ⟨"", Fields.get_set_self _ _ _⟩
    · exact hx
  unfold normalizeMessage at h
  split at h
  · split at h
    · next hc => cases h; exact fill m (.inl hc)
    · next s hc => cases h; exact fill m (.inr ⟨s, hc⟩)
    · split at h
      · cases h
        exact fill _ (.inr ⟨_, Fields.get_set_self _ _ _⟩)
      · cases h
    · cases h
  · cases h

theorem normalizeFrom_content : ∀ {i : Nat} {ms out : List Fields},
    normalizeFrom i ms = .ok out →
    ∀ m ∈ out, m.get "content" = .null ∨ ∃ s, m.get "content" = .str s
  | _, [], out, h => by cases h; simp
  | i, m :: ms, out, h => by
      obtain ⟨m', ms', hm, hms, rfl⟩ := normalizeFrom_cons h
      intro x hx
      rcases List.mem_cons.mp hx with rfl | hx
      · exact normalizeMessage_content hm
      · exact normalizeFrom_content hms x hx

/-- What every normalized message list is. -/
def Normal (messages : List Fields) : Prop :=
  ∀ m ∈ messages, supportedRoles.any (hasRole m) = true ∧
    (m.get "content" = .null ∨ ∃ s, m.get "content" = .str s)

theorem normalizeMessages_normal {ms out : List Fields} (h : normalizeMessages ms = .ok out) :
    Normal out := fun m hm => ⟨normalizeFrom_supported h m hm, normalizeFrom_content h m hm⟩

theorem pyEq_null_left {v : Json} (h : Json.null.pyEq v = true) : v = .null := by
  cases v with
  | null => rfl
  | str | bool | int | float | arr | obj => simp [Json.pyEq, Json.number] at h

/-- The same turn of a normalized conversation has the same role and content. -/
theorem sameMessage_fields {prev cur : Fields} (hr : supportedRoles.any (hasRole prev) = true)
    (hc : prev.get "content" = .null ∨ ∃ s, prev.get "content" = .str s)
    (h : sameMessage prev cur = true) :
    cur.get "role" = prev.get "role" ∧ cur.get "content" = prev.get "content" := by
  unfold sameMessage at h
  rw [Bool.and_eq_true] at h
  constructor
  · simp only [List.any_eq_true] at hr
    obtain ⟨r, _, hr⟩ := hr
    unfold hasRole at hr
    split at hr
    · next s hs =>
      rw [hs] at h
      rw [hs, pyEq_str_left h.1]
    · cases hr
  · rcases hc with hn | ⟨s, hs⟩
    · rw [hn] at h
      rw [hn, pyEq_null_left h.2]
    · rw [hs] at h
      rw [hs, pyEq_str_left h.2]

theorem hasRole_unique {m : Fields} {r r' : String} (h : hasRole m r = true)
    (h' : hasRole m r' = true) : r = r' := by
  unfold hasRole at h h'
  cases hv : m.get "role" with
  | str s =>
      rw [hv] at h h'
      simp only [beq_iff_eq] at h h'
      rw [← h, h']
  | null | bool | int | float | arr | obj => rw [hv] at h; cases h

theorem get_role_assistant {m : Fields} (h : isAssistant m = true) :
    m.get "role" = .str "assistant" := by
  unfold isAssistant hasRole at h
  split at h
  · next s hs =>
    rw [hs, beq_iff_eq.mp h]
  · cases h

/-- The same turn is an assistant's in both lists or in none. -/
theorem sameMessage_isAssistant {p c : Fields} (h : sameMessage p c = true) :
    isAssistant p = isAssistant c := by
  unfold sameMessage at h
  rw [Bool.and_eq_true] at h
  rw [Bool.eq_iff_iff]
  constructor
  · intro hp
    rw [get_role_assistant hp] at h
    simp only [isAssistant, hasRole, pyEq_str_left h.1, beq_self_eq_true]
  · intro hc
    rw [get_role_assistant hc] at h
    simp only [isAssistant, hasRole, pyEq_str_right h.1, beq_self_eq_true]

/-- Equal objects have equal text under every key. -/
theorem pyEqFields_get_str {l m : Fields} (h : Json.pyEqFields l m = true) {k s : String}
    (hs : l.get k = .str s) : m.get k = .str s := by
  induction l with
  | nil => cases hs
  | cons e l ih =>
      obtain ⟨k', v⟩ := e
      simp only [Json.pyEqFields, Bool.and_eq_true] at h
      simp only [Fields.get] at hs
      split at hs
      · next hk =>
        subst hk
        rw [hs] at h
        exact pyEq_str_left (by simpa [Json.isNan] using h.1.2)
      · exact ih h.2 hs

theorem pyEq_hasRole {l m : Fields} (h : (Json.obj l).pyEq (.obj m) = true) {r : String}
    (hr : hasRole l r = true) : hasRole m r = true := by
  simp only [Json.pyEq, Bool.and_eq_true] at h
  unfold hasRole at hr ⊢
  cases hv : l.get "role" with
  | str s =>
      rw [hv] at hr
      rw [pyEqFields_get_str h.2 hv]
      exact hr
  | null | bool | int | float | arr | obj => rw [hv] at hr; cases hr

/-- **Equal normalized conversations have their assistant messages at the same positions.** -/
theorem sameMessages_isAssistant : ∀ {l m : List Fields}, sameMessages l m = true →
    (∀ x ∈ l, supportedRoles.any (hasRole x) = true) → l.map isAssistant = m.map isAssistant
  | [], [], _, _ => rfl
  | [], _ :: _, h, _ => by simp [sameMessages, Json.pyEqItems] at h
  | _ :: _, [], h, _ => by simp [sameMessages, Json.pyEqItems] at h
  | x :: l, y :: m, h, hs => by
      simp only [sameMessages, List.map_cons, Json.pyEqItems, Bool.and_eq_true] at h
      have htail : sameMessages l m = true := h.2
      have hx := hs x (by simp)
      simp only [List.any_eq_true] at hx
      obtain ⟨r, _, hr⟩ := hx
      have hr' := pyEq_hasRole (by simpa [Json.isNan] using h.1) hr
      have hhead : isAssistant x = isAssistant y := by
        unfold isAssistant
        rw [Bool.eq_iff_iff]
        constructor
        · intro ha
          rw [← hasRole_unique hr ha]
          exact hr'
        · intro ha
          rw [← hasRole_unique hr' ha]
          exact hr
      simp only [List.map_cons, hhead,
        sameMessages_isAssistant htail fun z hz => hs z (by simp [hz])]

/-! ## 4. `validate_tools` -/

def validateTool : Json → Except TokenStreamError Unit
  | .obj tool =>
    if !(Fields.get tool "type").pyEq (.str "function") then .error .notFunctionTool else
    match Fields.get tool "function" with
    | .obj function =>
      match Fields.get function "name" with
      | .str name =>
        if isBlank name then .error .unnamedTool else
        match Fields.get function "parameters" with
        | .null | .obj _ =>
          match Fields.get function "strict" with
          | .null | .bool false => .ok ()
          | _ => .error .strictTool
        | _ => .error .badToolParameters
      | _ => .error .unnamedTool
    | _ => .error .unnamedTool
  | _ => .error .notFunctionTool

def validateToolList : List Json → Except TokenStreamError Unit
  | [] => .ok ()
  | t :: ts =>
    match validateTool t with
    | .error e => .error e
    | .ok () => validateToolList ts

/-- `validate_tools`: function definitions or null. -/
def validateTools : Json → Except TokenStreamError Unit
  | .null => .ok ()
  | .arr tools => validateToolList tools
  | _ => .error .toolsNotList

/-- `tools or []`. -/
def toolList : Json → List Json
  | .arr tools => tools
  | _ => []

end RolloutProxy
