/-
  File:      RolloutProxy/Echo/Agree.lean
  Subject:   MESSAGE LISTS THAT DIFFER IN THEIR ASSISTANT ECHOES ONLY, and what the reading of a
             request makes of them.

  * `withoutEcho` puts one mark in the place of every assistant message; two lists agree when
    nothing else tells them apart (`Agree`). What reads a message through `withoutEcho` reads the
    same in both lists.
  * Agreeing lists normalize to agreeing lists, or are refused alike (`normalizeMessages_agree`).
  * The history check of a continuation finds the same fault or the same new messages in both
    (`newMessages_agree`), as long as each list repeats its own earlier echoes.
-/
import RolloutProxy.TokenStream.Prompt

namespace RolloutProxy

/-! ## 1. Agreement -/

/-- What stands for an assistant message. -/
def echoMark : Fields := [("role", .str "assistant")]

/-- A message, with nothing left of it where it is an assistant's. -/
def withoutEcho (m : Fields) : Fields := if isAssistant m then echoMark else m

/-- The lists have the same non-assistant messages, and assistant messages in the same places. -/
def Agree (l l' : List Fields) : Prop := l.map withoutEcho = l'.map withoutEcho

theorem withoutEcho_of_assistant {m : Fields} (h : isAssistant m = true) :
    withoutEcho m = echoMark := if_pos h

theorem withoutEcho_of_not {m : Fields} (h : isAssistant m = false) : withoutEcho m = m := by
  simp [withoutEcho, h]

/-- An echo keeps its role. -/
theorem withoutEcho_role (m : Fields) : (withoutEcho m).get "role" = m.get "role" := by
  by_cases h : isAssistant m = true
  · rw [withoutEcho_of_assistant h, get_role_assistant h]
    rfl
  · rw [withoutEcho_of_not (by simpa using h)]

@[simp] theorem hasRole_withoutEcho (m : Fields) (r : String) :
    hasRole (withoutEcho m) r = hasRole m r := by
  unfold hasRole
  rw [withoutEcho_role]

@[simp] theorem isAssistant_withoutEcho (m : Fields) : isAssistant (withoutEcho m) = isAssistant m :=
  hasRole_withoutEcho m "assistant"

@[simp] theorem roleText_withoutEcho (m : Fields) : roleText (withoutEcho m) = roleText m := by
  unfold roleText
  rw [withoutEcho_role]

@[simp] theorem gapRole_withoutEcho (m : Fields) :
    ManagerConfig.gapRole (withoutEcho m) = ManagerConfig.gapRole m := by
  have h : hasRole (withoutEcho m) = hasRole m := funext (hasRole_withoutEcho m)
  simp only [ManagerConfig.gapRole, h]

/-- **Two messages agree** where they are equal or both an assistant's. -/
theorem withoutEcho_eq_iff {m m' : Fields} :
    withoutEcho m = withoutEcho m' ↔ m = m' ∨ isAssistant m = true ∧ isAssistant m' = true := by
  constructor
  · intro h
    have hr : isAssistant m = isAssistant m' := by
      rw [← isAssistant_withoutEcho m, h, isAssistant_withoutEcho]
    by_cases ha : isAssistant m = true
    · exact .inr ⟨ha, hr ▸ ha⟩
    · have hb : isAssistant m = false := by simpa using ha
      rw [withoutEcho_of_not hb, withoutEcho_of_not (hr ▸ hb)] at h
      exact .inl h
  · rintro (rfl | ⟨h, h'⟩)
    · rfl
    · rw [withoutEcho_of_assistant h, withoutEcho_of_assistant h']

namespace Agree

variable {l l' : List Fields}

theorem length_eq (h : Agree l l') : l.length = l'.length := by
  simpa using congrArg List.length h

theorem cons {m m' : Fields} (hm : withoutEcho m = withoutEcho m') (h : Agree l l') :
    Agree (m :: l) (m' :: l') := by
  simp only [Agree, List.map_cons, hm, show l.map withoutEcho = l'.map withoutEcho from h]

/-- The parts of agreeing lists. -/
theorem cons_inv {m m' : Fields} (h : Agree (m :: l) (m' :: l')) :
    withoutEcho m = withoutEcho m' ∧ Agree l l' := by
  simpa [Agree] using h

theorem drop (h : Agree l l') (n : Nat) : Agree (l.drop n) (l'.drop n) := by
  unfold Agree at *
  rw [List.map_drop, List.map_drop, h]

/-- What reads a message through its mark reads the same in both lists. -/
theorem map_eq {β : Type} {f : Fields → β} (hf : ∀ m, f (withoutEcho m) = f m) (h : Agree l l') :
    l.map f = l'.map f := by
  have e : ∀ x : List Fields, x.map f = (x.map withoutEcho).map f := by
    intro x
    rw [List.map_map]
    exact List.map_congr_left fun m _ => (hf m).symm
  rw [e l, e l', show l.map withoutEcho = l'.map withoutEcho from h]

theorem filter {p : Fields → Bool} (hp : ∀ m, p (withoutEcho m) = p m) (h : Agree l l') :
    Agree (l.filter p) (l'.filter p) := by
  have e : ∀ x : List Fields, (x.filter p).map withoutEcho = (x.map withoutEcho).filter p := by
    intro x
    rw [List.filter_map]
    congr 1
    exact List.filter_congr fun m _ => (hp m).symm
  unfold Agree at *
  rw [e l, e l', h]

theorem any_assistant (h : Agree l l') : l.any isAssistant = l'.any isAssistant := by
  have := congrArg (fun x => x.any id) (h.map_eq isAssistant_withoutEcho)
  simpa [List.any_map] using this

/-- Lists without assistant messages agree only where they are equal. -/
theorem eq_of_no_assistant (h : Agree l l') (hl : l.any isAssistant = false) : l = l' := by
  have e : ∀ x : List Fields, x.any isAssistant = false → x.map withoutEcho = x := by
    intro x hx
    conv_rhs => rw [← List.map_id x]
    refine List.map_congr_left fun m hm => withoutEcho_of_not ?_
    have := List.any_eq_false.mp hx m hm
    simpa using this
  have hl' : l'.any isAssistant = false := h.any_assistant ▸ hl
  rw [← e l hl, ← e l' hl']
  exact h

end Agree

/-! ## 2. Normalizing -/

/-- Every echo passes `normalize_messages`. -/
def EchoesNormal (messages : List Fields) : Prop :=
  ∀ m ∈ messages, isAssistant m = true → ∃ n, normalizeMessages [m] = .ok n

theorem normalizeMessage_index {i : Nat} (j : Nat) {m m' : Fields}
    (h : normalizeMessage i m = .ok m') : normalizeMessage j m = .ok m' := by
  unfold normalizeMessage at h ⊢
  split at h
  · next hs =>
    rw [if_pos hs]
    split at h
    · exact h
    · exact h
    · split at h
      · exact h
      · cases h
    · cases h
  · cases h

theorem EchoesNormal.head {m : Fields} {l : List Fields} (h : EchoesNormal (m :: l))
    (ha : isAssistant m = true) (i : Nat) : ∃ m', normalizeMessage i m = .ok m' := by
  obtain ⟨n, hn⟩ := h m (by simp) ha
  obtain ⟨m', _, hm, _⟩ := normalizeFrom_cons hn
  exact ⟨m', normalizeMessage_index i hm⟩

theorem EchoesNormal.tail {m : Fields} {l : List Fields} (h : EchoesNormal (m :: l)) :
    EchoesNormal l := fun x hx => h x (by simp [hx])

/-- Two outcomes of normalizing: the same refusal, or agreeing messages. -/
def NormalizedAlike (x y : Except TokenStreamError (List Fields)) : Prop :=
  (∃ e, x = .error e ∧ y = .error e) ∨ ∃ n n', x = .ok n ∧ y = .ok n' ∧ Agree n n'

/-- One message normalizes alike in both lists. -/
theorem normalizeMessage_agree {i : Nat} {m m' : Fields} {l l' : List Fields}
    (h : withoutEcho m = withoutEcho m') (hl : EchoesNormal (m :: l))
    (hl' : EchoesNormal (m' :: l')) :
    (∃ e, normalizeMessage i m = .error e ∧ normalizeMessage i m' = .error e) ∨
      ∃ n n', normalizeMessage i m = .ok n ∧ normalizeMessage i m' = .ok n' ∧
        withoutEcho n = withoutEcho n' := by
  rcases withoutEcho_eq_iff.mp h with rfl | ⟨ha, ha'⟩
  · cases hn : normalizeMessage i m with
    | error e => exact .inl ⟨e, rfl, rfl⟩
    | ok n => exact .inr ⟨n, n, rfl, rfl, rfl⟩
  · obtain ⟨n, hn⟩ := hl.head ha i
    obtain ⟨n', hn'⟩ := hl'.head ha' i
    refine .inr ⟨n, n', hn, hn', withoutEcho_eq_iff.mpr (.inr ⟨?_, ?_⟩)⟩
    · rw [normalizeMessage_isAssistant hn, ha]
    · rw [normalizeMessage_isAssistant hn', ha']

theorem normalizeFrom_agree : ∀ {i : Nat} {l l' : List Fields}, Agree l l' → EchoesNormal l →
    EchoesNormal l' → NormalizedAlike (normalizeFrom i l) (normalizeFrom i l')
  | _, [], [], _, _, _ => .inr ⟨[], [], rfl, rfl, rfl⟩
  | _, [], _ :: _, h, _, _ => by simp [Agree] at h
  | _, _ :: _, [], h, _, _ => by simp [Agree] at h
  | i, m :: l, m' :: l', h, hl, hl' => by
      obtain ⟨hm, ht⟩ := h.cons_inv
      rcases normalizeMessage_agree (i := i) hm hl hl' with ⟨e, he, he'⟩ | ⟨n, n', hn, hn', hnn⟩
      · exact .inl ⟨e, by simp only [normalizeFrom, he], by simp only [normalizeFrom, he']⟩
      · rcases normalizeFrom_agree (i := i + 1) ht hl.tail hl'.tail with
          ⟨e, he, he'⟩ | ⟨ns, ns', hs, hs', hss⟩
        · exact .inl ⟨e, by simp only [normalizeFrom, hn, he], by simp only [normalizeFrom, hn', he']⟩
        · exact .inr ⟨n :: ns, n' :: ns', by simp only [normalizeFrom, hn, hs],
            by simp only [normalizeFrom, hn', hs'], hss.cons hnn⟩

/-- **Agreeing requests normalize alike.** -/
theorem normalizeMessages_agree {l l' : List Fields} (h : Agree l l') (hl : EchoesNormal l)
    (hl' : EchoesNormal l') : NormalizedAlike (normalizeMessages l) (normalizeMessages l') :=
  normalizeFrom_agree h hl hl'

/-! ## 3. The history of a continuation -/

/-- The second list repeats the echoes of the first. -/
def RepeatsEchoes (previous current : List Fields) : Prop :=
  ∀ pc ∈ previous.zip current, isAssistant pc.1 = true → isAssistant pc.2 = true →
    sameMessage pc.1 pc.2 = true

theorem RepeatsEchoes.head {p c : Fields} {ps cs : List Fields}
    (h : RepeatsEchoes (p :: ps) (c :: cs)) (hp : isAssistant p = true)
    (hc : isAssistant c = true) : sameMessage p c = true := h (p, c) (by simp) hp hc

theorem RepeatsEchoes.tail {p c : Fields} {ps cs : List Fields}
    (h : RepeatsEchoes (p :: ps) (c :: cs)) : RepeatsEchoes ps cs :=
  fun pc hm => h pc (by simp [hm])

/-- One position of the history reads alike in both requests. -/
theorem sameMessage_agree {p p' c c' : Fields} (hp : withoutEcho p = withoutEcho p')
    (hc : withoutEcho c = withoutEcho c')
    (hr : isAssistant p = true → isAssistant c = true → sameMessage p c = true)
    (hr' : isAssistant p' = true → isAssistant c' = true → sameMessage p' c' = true) :
    sameMessage p c = sameMessage p' c' := by
  have differ : ∀ {x y : Fields}, isAssistant x ≠ isAssistant y → sameMessage x y = false := by
    intro x y hne
    by_contra hs
    exact hne (sameMessage_isAssistant (by simpa using hs))
  rcases withoutEcho_eq_iff.mp hp with rfl | ⟨ha, ha'⟩ <;>
    rcases withoutEcho_eq_iff.mp hc with rfl | ⟨hb, hb'⟩
  · rfl
  · by_cases ha : isAssistant p = true
    · rw [hr ha hb, hr' ha hb']
    · rw [differ (by rw [hb]; exact ha), differ (by rw [hb']; exact ha)]
  · by_cases hb : isAssistant c = true
    · rw [hr ha hb, hr' ha' hb]
    · rw [differ (by rw [ha]; exact fun e => hb e.symm),
        differ (by rw [ha']; exact fun e => hb e.symm)]
  · rw [hr ha hb, hr' ha' hb']

theorem modifiedAt_agree : ∀ {i : Nat} {p p' c c' : List Fields}, Agree p p' → Agree c c' →
    RepeatsEchoes p c → RepeatsEchoes p' c' →
    ManagerConfig.modifiedAt i p c = ManagerConfig.modifiedAt i p' c'
  | _, [], [], _, _, _, _, _, _ => by simp [ManagerConfig.modifiedAt]
  | _, [], _ :: _, _, _, h, _, _, _ => by simp [Agree] at h
  | _, _ :: _, [], _, _, h, _, _, _ => by simp [Agree] at h
  | _, _ :: _, _ :: _, [], [], _, _, _, _ => by simp [ManagerConfig.modifiedAt]
  | _, _ :: _, _ :: _, [], _ :: _, _, h, _, _ => by simp [Agree] at h
  | _, _ :: _, _ :: _, _ :: _, [], _, h, _, _ => by simp [Agree] at h
  | i, p :: ps, p' :: ps', c :: cs, c' :: cs', hp, hc, hr, hr' => by
      obtain ⟨hp₀, hps⟩ := hp.cons_inv
      obtain ⟨hc₀, hcs⟩ := hc.cons_inv
      have hrole : roleText c = roleText c' := by
        rw [← roleText_withoutEcho c, hc₀, roleText_withoutEcho]
      simp only [ManagerConfig.modifiedAt, sameMessage_agree hp₀ hc₀ hr.head hr'.head, hrole,
        modifiedAt_agree hps hcs hr.tail hr'.tail]

/-- **The history check reads no echo**: agreeing continuations are refused alike, or hand over
    the same new messages behind their echoes. -/
theorem newMessages_agree {p p' c c' : List Fields} (hp : Agree p p') (hc : Agree c c')
    (hr : RepeatsEchoes p c) (hr' : RepeatsEchoes p' c') :
    (∃ e, ManagerConfig.newMessages p c = .error e ∧ ManagerConfig.newMessages p' c' = .error e) ∨
      ∃ echo echo' new, ManagerConfig.newMessages p c = .ok (echo, new) ∧
        ManagerConfig.newMessages p' c' = .ok (echo', new) := by
  unfold ManagerConfig.newMessages
  simp only [← hp.length_eq, ← hc.length_eq, ← modifiedAt_agree (i := 0) hp hc hr hr']
  by_cases hlen : c.length < p.length + 2
  · simp only [if_pos hlen]
    exact .inl ⟨_, rfl, rfl⟩
  simp only [if_neg hlen]
  cases ManagerConfig.modifiedAt 0 p c with
  | some ir => exact .inl ⟨_, rfl, rfl⟩
  | none =>
      have hd := hc.drop p.length
      cases hx : c.drop p.length with
      | nil =>
          cases hx' : c'.drop p.length with
          | nil => exact .inl ⟨_, rfl, rfl⟩
          | cons => rw [hx, hx'] at hd; simp [Agree] at hd
      | cons echo new =>
          cases hx' : c'.drop p.length with
          | nil => rw [hx, hx'] at hd; simp [Agree] at hd
          | cons echo' new' =>
              rw [hx, hx'] at hd
              obtain ⟨he, hn⟩ := hd.cons_inv
              have hass : isAssistant echo = isAssistant echo' := by
                rw [← isAssistant_withoutEcho echo, he, isAssistant_withoutEcho]
              have hrole : roleText echo = roleText echo' := by
                rw [← roleText_withoutEcho echo, he, roleText_withoutEcho]
              -- what follows the echoes agrees, so its roles are refused alike
              have hbad := hn.filter (p := fun m => !ManagerConfig.gapRole m) (by simp)
              simp only [← hass, ← hrole]
              by_cases ha : isAssistant echo = true
              · simp only [ha, Bool.not_true, Bool.false_eq_true, if_false]
                cases hb : new.filter fun m => !ManagerConfig.gapRole m with
                | nil =>
                    have hb' : new'.filter (fun m => !ManagerConfig.gapRole m) = [] := by
                      have := hbad.length_eq
                      rw [hb] at this
                      exact List.length_eq_zero_iff.mp this.symm
                    have hnew : new = new' := hn.eq_of_no_assistant (by
                      rw [List.any_eq_false]
                      intro m hm hass
                      have := List.filter_eq_nil_iff.mp hb m hm
                      simp only [Bool.not_eq_true', Bool.not_eq_false, ManagerConfig.gapRole,
                        List.any_eq_true] at this
                      obtain ⟨r, hr, hrr⟩ := this
                      rw [hasRole_unique hrr hass] at hr
                      revert hr
                      decide)
                    rw [hb']
                    exact .inr ⟨echo, echo', new, rfl, by rw [hnew]⟩
                | cons b bs =>
                    have hroles := hbad.map_eq roleText_withoutEcho
                    rw [hb] at hroles
                    cases hb' : new'.filter fun m => !ManagerConfig.gapRole m with
                    | nil => rw [hb'] at hroles; cases hroles
                    | cons b' bs' =>
                        rw [hb'] at hroles
                        exact .inl ⟨_, rfl, by simp only [refuse, hroles]⟩
              · simp only [show isAssistant echo = false by simpa using ha, Bool.not_false, if_true]
                exact .inl ⟨_, rfl, rfl⟩

/-- An opening is told from a continuation of the stored messages without their echoes. -/
theorem extendsConversation_agree {p p' c : List Fields} (hp : Agree p p')
    (hc : c.any isAssistant = false) :
    extendsConversation p c = extendsConversation p' c := by
  unfold extendsConversation
  rw [hp.length_eq]
  congr 1
  have hnone : ∀ m ∈ c, isAssistant m = false := fun m hm => by
    simpa using List.any_eq_false.mp hc m hm
  clear hc
  induction c generalizing p p' with
  | nil => simp
  | cons m c ih =>
      cases p with
      | nil =>
          cases p' with
          | nil => rfl
          | cons => simp [Agree] at hp
      | cons x p =>
          cases p' with
          | nil => simp [Agree] at hp
          | cons x' p' =>
              obtain ⟨hx, ht⟩ := hp.cons_inv
              have hm := hnone m (by simp)
              have hs : sameMessage x m = sameMessage x' m :=
                sameMessage_agree hx rfl (fun _ ha => by rw [hm] at ha; cases ha)
                  (fun _ ha => by rw [hm] at ha; cases ha)
              simp only [List.zip_cons_cons, List.all_cons, hs,
                ih ht fun y hy => hnone y (by simp [hy])]

end RolloutProxy
