/-
  File:      RolloutProxy/Engine/Policy.lean
  Subject:   SAMPLING POLICIES: what `validate_sampling_overrides` accepts (model_registry.py), one
             layer over another, the temperature floor, and the client's side of a push
             (`_validate_controls`, `_matches_sampling` and `_check_sampling_response`, client.py).

  * `Fields.update_get`, `Fields.update_has`: what a merge of two dicts holds.
  * `IsLayer`: distinct distribution keys with allowed values; validation gives one
    (`validateSamplingOverrides_layer`), and merges and the floor keep it.
  * `agrees_of_update`: parameters a layer was merged into last agree with it, floored or not.
-/
import RolloutProxy.Engine.Sampling
import RolloutProxy.JsonEquality

namespace RolloutProxy

/-! ## 1. Merged dicts -/

namespace Fields

variable {d l : Fields} {key : String}

theorem set_keys (d : Fields) (key : String) (v : Json) {e : String × Json}
    (h : e ∈ Fields.set d key v) : e ∈ d ∨ e = (key, v) := by
  induction d with
  | nil => exact .inr (List.mem_singleton.mp h)
  | cons x d ih =>
    obtain ⟨k, w⟩ := x
    unfold Fields.set at h
    split at h
    · next hk =>
      rcases List.mem_cons.mp h with rfl | h
      · exact .inr (by rw [hk])
      · exact .inl (List.mem_cons_of_mem _ h)
    · rcases List.mem_cons.mp h with rfl | h
      · exact .inl List.mem_cons_self
      · exact (ih h).imp_left (List.mem_cons_of_mem _)

/-- A merge looks a key up in the second dict first. -/
theorem update_get : ∀ {l d : Fields}, (l.map Prod.fst).Nodup →
    get (update d l) key = if has l key then get l key else get d key
  | [], _, _ => rfl
  | (k, v) :: l, d, hn => by
      obtain ⟨hk, hl⟩ := List.nodup_cons.mp hn
      change get (update (set d k v) l) key = _
      rw [update_get hl]
      by_cases hkey : k = key
      · subst hkey
        have habsent : has l k = false := by
          rw [Bool.eq_false_iff]
          exact fun h => hk (Json.has_iff.mp h)
        rw [habsent, if_neg Bool.false_ne_true, get_set_self]
        simp [has, get]
      · have hhas : has ((k, v) :: l) key = has l key := by simp [has, hkey]
        rw [hhas, get_set_ne _ _ (Ne.symm hkey), get, if_neg hkey]

theorem update_has : ∀ (l d : Fields), has (update d l) key = (has d key || has l key)
  | [], _ => by simp [update, has]
  | (k, v) :: l, d => by
      change has (update (set d k v) l) key = _
      rw [update_has l, has_set]
      simp only [has, List.any_cons]
      rw [decide_eq_decide.mpr (eq_comm : key = k ↔ k = key)]
      cases decide (k = key) <;> cases d.any fun e => decide (e.1 = key) <;> rfl

theorem update_nodup : ∀ {l d : Fields}, (d.map Prod.fst).Nodup →
    ((update d l).map Prod.fst).Nodup
  | [], _, h => h
  | _ :: l, _, h => update_nodup (l := l) (set_nodup h)

theorem mem_update : ∀ {l d : Fields} {e : String × Json}, e ∈ update d l → e ∈ d ∨ e ∈ l
  | [], _, _, h => .inl h
  | (k, v) :: l, d, e, h => by
      rcases mem_update (l := l) h with h | h
      · rcases set_keys d k v h with h | rfl
        · exact .inl h
        · exact .inr List.mem_cons_self
      · exact .inr (List.mem_cons_of_mem _ h)

end Fields

/-! ## 2. Layers -/

/-- A value that is allowed under a distribution key. -/
def Allowed (key : String) (value : Json) : Prop :=
  finite value = true ∧ ∃ q, value.number = some (.finite q) ∧ (samplingRange key value q).1 = true

/-- What a validated layer of overrides consists of. -/
structure IsLayer (l : Fields) : Prop where
  once : (l.map Prod.fst).Nodup
  keys : ∀ e ∈ l, e.1 ∈ samplingParamKeys
  values : ∀ e ∈ l, Allowed e.1 e.2

theorem IsLayer.nil : IsLayer [] := ⟨List.nodup_nil, nofun, nofun⟩

section Layers

variable {py : PyText} {place : String}

theorem validateSamplingValue_iff {key : String} {value : Json} :
    validateSamplingValue py place key value = .ok () ↔ Allowed key value := by
  unfold Allowed validateSamplingValue
  cases value with
  | int n =>
    simp only [Json.number, Option.some.injEq, PyFloat.finite.injEq, exists_eq_left']
    cases hf : finite (.int n)
    · simp
    · cases (samplingRange key (.int n) n).1 <;> simp
  | float x =>
    cases x with
    | finite q =>
      simp only [Json.number, Option.some.injEq, PyFloat.finite.injEq, exists_eq_left']
      cases (samplingRange key (.float (.finite q)) q).1 <;> simp [finite, PyFloat.isFinite]
    | inf b => simp [Json.number, finite, PyFloat.isFinite]
    | nan => simp [Json.number, finite, PyFloat.isFinite]
  | _ => simp [finite]

theorem validateSamplingValues_iff : ∀ {l : Fields},
    validateSamplingValues py place l = .ok () ↔ ∀ e ∈ l, Allowed e.1 e.2
  | [] => ⟨fun _ => nofun, fun _ => rfl⟩
  | (key, value) :: rest => by
      rw [List.forall_mem_cons]
      unfold validateSamplingValues
      constructor
      · intro h
        obtain ⟨_, hvalue, h⟩ := bind_ok h
        exact ⟨validateSamplingValue_iff.mp hvalue, validateSamplingValues_iff.mp h⟩
      · rintro ⟨hvalue, hrest⟩
        rw [validateSamplingValue_iff.mpr hvalue, ok_bind, validateSamplingValues_iff.mpr hrest]

/-- **What is accepted**: distribution keys with allowed values, in the order of the keys. -/
theorem validateSamplingOverrides_iff {fields sampling : Fields} :
    validateSamplingOverrides py place (.obj fields) = .ok sampling ↔
      (∀ e ∈ fields, e.1 ∈ samplingParamKeys ∧ Allowed e.1 e.2) ∧ sampling = samplingOf fields := by
  have hkeys : (fields.map Prod.fst).filter (!samplingParamKeys.contains ·) = [] ↔
      ∀ e ∈ fields, e.1 ∈ samplingParamKeys := by
    rw [List.filter_eq_nil_iff]
    simp
  simp only [validateSamplingOverrides]
  constructor
  · intro h
    split at h
    · next hbad =>
      obtain ⟨_, hvalues, h⟩ := bind_ok h
      exact ⟨fun e he => ⟨hkeys.mp hbad e he, validateSamplingValues_iff.mp hvalues e he⟩,
        (Except.ok.inj h).symm⟩
    · cases h
  · rintro ⟨hall, rfl⟩
    rw [hkeys.mpr fun e he => (hall e he).1]
    simp only
    rw [validateSamplingValues_iff.mpr fun e he => (hall e he).2, ok_bind]
    rfl

theorem validateSamplingOverrides_obj {v : Json} {sampling : Fields}
    (h : validateSamplingOverrides py place v = .ok sampling) : ∃ fields, v = .obj fields := by
  cases v with
  | obj fields => exact ⟨fields, rfl⟩
  | _ => cases h

/-- The parameters in the order of the keys are the parameters. -/
theorem mem_samplingOf {fields : Fields} (hn : (fields.map Prod.fst).Nodup)
    (hk : ∀ e ∈ fields, e.1 ∈ samplingParamKeys) {e : String × Json} :
    e ∈ samplingOf fields ↔ e ∈ fields := by
  unfold samplingOf
  rw [List.mem_map]
  constructor
  · rintro ⟨k, hk, rfl⟩
    have hhas := (List.mem_filter.mp hk).2
    exact Json.entry_of_has hhas
  · intro he
    have hhas : fields.has e.1 = true := Json.has_iff.mpr (List.mem_map_of_mem he)
    exact ⟨e.1, List.mem_filter.mpr ⟨hk e he, hhas⟩, by rw [Json.get_of_mem hn he]⟩

theorem samplingOf_mem {fields : Fields} {e : String × Json} (h : e ∈ samplingOf fields) :
    e ∈ fields := by
  obtain ⟨k, hk, rfl⟩ := List.mem_map.mp h
  exact Json.entry_of_has (List.mem_filter.mp hk).2

theorem samplingOf_nodup (fields : Fields) : ((samplingOf fields).map Prod.fst).Nodup := by
  unfold samplingOf
  rw [List.map_map]
  have hid : (Prod.fst ∘ fun k => (k, Fields.get fields k)) = id := rfl
  rw [hid, List.map_id]
  exact (show samplingParamKeys.Nodup by decide).filter _

/-- The distribution parameters hold what the parameters do under a distribution key. -/
theorem samplingOf_get {fields : Fields} {key : String} (hk : key ∈ samplingParamKeys)
    (hhas : fields.has key = true) : Fields.get (samplingOf fields) key = Fields.get fields key := by
  refine Json.get_of_mem (e := (key, Fields.get fields key)) (samplingOf_nodup fields) ?_
  exact List.mem_map.mpr ⟨key, List.mem_filter.mpr ⟨hk, hhas⟩, rfl⟩

theorem samplingOf_has {fields : Fields} {key : String} (hk : key ∈ samplingParamKeys) :
    Fields.has (samplingOf fields) key = Fields.has fields key := by
  rw [Bool.eq_iff_iff, Json.has_iff]
  constructor
  · intro h
    obtain ⟨e, he, rfl⟩ := List.mem_map.mp h
    exact Json.has_iff.mpr (List.mem_map_of_mem (samplingOf_mem he))
  · intro h
    exact List.mem_map.mpr ⟨(key, Fields.get fields key),
      List.mem_map.mpr ⟨key, List.mem_filter.mpr ⟨hk, h⟩, rfl⟩, rfl⟩

/-- Distribution parameters stand in the order of the keys already. -/
theorem samplingOf_idem (fields : Fields) : samplingOf (samplingOf fields) = samplingOf fields := by
  have hfilter : samplingParamKeys.filter (Fields.has (samplingOf fields)) =
      samplingParamKeys.filter (Fields.has fields) :=
    List.filter_congr fun _ hk => samplingOf_has hk
  have hmap : ∀ k ∈ samplingParamKeys.filter (Fields.has fields),
      (k, Fields.get (samplingOf fields) k) = (k, Fields.get fields k) := by
    intro k hk
    obtain ⟨hk, hhas⟩ := List.mem_filter.mp hk
    rw [samplingOf_get hk hhas]
  calc samplingOf (samplingOf fields)
      = (samplingParamKeys.filter (Fields.has fields)).map
          fun k => (k, Fields.get (samplingOf fields) k) := congrArg _ hfilter
    _ = samplingOf fields := List.map_congr_left hmap

/-- **Validation gives a layer.** -/
theorem validateSamplingOverrides_layer {v : Json} {sampling : Fields}
    (h : validateSamplingOverrides py place v = .ok sampling) : IsLayer sampling := by
  obtain ⟨fields, rfl⟩ := validateSamplingOverrides_obj h
  obtain ⟨hall, rfl⟩ := validateSamplingOverrides_iff.mp h
  exact ⟨samplingOf_nodup _, fun e he => (hall e (samplingOf_mem he)).1,
    fun e he => (hall e (samplingOf_mem he)).2⟩

/-- A layer is accepted again. -/
theorem IsLayer.validates {l : Fields} (h : IsLayer l) :
    validateSamplingOverrides py place (.obj l) = .ok (samplingOf l) :=
  validateSamplingOverrides_iff.mpr ⟨fun e he => ⟨h.keys e he, h.values e he⟩, rfl⟩

end Layers

/-- One layer over another. -/
theorem IsLayer.update {l m : Fields} (hl : IsLayer l) (hm : IsLayer m) :
    IsLayer (Fields.update l m) where
  once := Fields.update_nodup hl.once
  keys := fun e he => (Fields.mem_update he).elim (hl.keys e) (hm.keys e)
  values := fun e he => (Fields.mem_update he).elim (hl.values e) (hm.values e)

/-! ## 3. The floor -/

/-- A temperature below the floor is the floor. -/
def flooredValue (v : Json) : Json :=
  match v.number with
  | some (.finite q) => if q < minTemperature then .float (.finite minTemperature) else v
  | _ => v

theorem floor_get (params : Fields) (key : String) :
    Fields.get (applyTemperatureFloor params) key =
      if key = "temperature" then flooredValue (Fields.get params key)
      else Fields.get params key := by
  unfold applyTemperatureFloor flooredValue
  by_cases hk : key = "temperature"
  · subst hk
    rw [if_pos rfl]
    cases (Fields.get params "temperature").number with
    | none => rfl
    | some x =>
      cases x with
      | finite q =>
        simp only
        split
        · exact Fields.get_set_self _ _ _
        · rfl
      | _ => rfl
  · rw [if_neg hk]
    split
    · split
      · exact Fields.get_set_ne _ _ hk
      · rfl
    · rfl

theorem floor_has (params : Fields) (key : String) :
    Fields.has (applyTemperatureFloor params) key = Fields.has params key := by
  unfold applyTemperatureFloor
  split
  · next q hq =>
    split
    · rw [Fields.has_set]
      by_cases hk : key = "temperature"
      · subst hk
        cases hhas : Fields.has params "temperature" with
        | true => rfl
        | false =>
          rw [Json.get_absent hhas] at hq
          cases hq
      · rw [decide_eq_false hk, Bool.false_or]
    · rfl
  · rfl

theorem allowed_minTemperature : Allowed "temperature" (.float (.finite minTemperature)) :=
  ⟨rfl, minTemperature, rfl, by decide +kernel⟩

/-- A floored layer is a layer. -/
theorem IsLayer.floor {l : Fields} (h : IsLayer l) : IsLayer (applyTemperatureFloor l) := by
  unfold applyTemperatureFloor
  split
  · split
    · refine ⟨set_nodup h.once, fun e he => ?_, fun e he => ?_⟩
      · rcases Fields.set_keys _ _ _ he with he | rfl
        · exact h.keys e he
        · decide
      · rcases Fields.set_keys _ _ _ he with he | rfl
        · exact h.values e he
        · exact allowed_minTemperature
    · exact h
  · exact h

/-- Parameters that hold a policy: each of its keys with its value. -/
def AgreesWith (policy params : Fields) : Prop :=
  ∀ e ∈ policy, Fields.has params e.1 = true ∧ Fields.get params e.1 = e.2

/-- A layer read through a lookup. -/
theorem agreesWith_iff {policy params : Fields} (hn : (policy.map Prod.fst).Nodup) :
    AgreesWith policy params ↔ ∀ key, Fields.has policy key = true →
      Fields.has params key = true ∧ Fields.get params key = Fields.get policy key := by
  constructor
  · intro h key hkey
    exact h _ (Json.entry_of_has hkey)
  · intro h e he
    rw [← Json.get_of_mem hn he]
    exact h e.1 (Json.has_iff.mpr (List.mem_map_of_mem he))

/-- **Where a layer was merged in last**, the floored parameters hold the floored layer. -/
theorem agrees_of_update {layer params : Fields} (hl : IsLayer layer)
    (h : ∀ key, Fields.has layer key = true → Fields.has params key = true ∧
      Fields.get params key = Fields.get layer key) :
    AgreesWith (applyTemperatureFloor layer) (applyTemperatureFloor params) := by
  refine (agreesWith_iff hl.floor.once).mpr fun key hkey => ?_
  rw [floor_has] at hkey ⊢
  obtain ⟨hhas, hget⟩ := h key hkey
  refine ⟨hhas, ?_⟩
  rw [floor_get, floor_get, hget]

/-- The distribution parameters of what holds a policy hold it too. -/
theorem AgreesWith.sampling {policy params : Fields} (h : AgreesWith policy params)
    (hl : IsLayer policy) : AgreesWith policy (samplingOf params) := by
  intro e he
  obtain ⟨hhas, hget⟩ := h e he
  exact ⟨by rw [samplingOf_has (hl.keys e he), hhas],
    by rw [samplingOf_get (hl.keys e he) hhas, hget]⟩

/-! ## 4. The client's side -/

/-- `_matches_sampling`. -/
def matchesSampling (actual : Json) (expected : Fields) : Bool :=
  match actual with
  | .obj actual => expected.all fun e =>
      finite (Fields.get actual e.1) && (Fields.get actual e.1).pyEq e.2
  | _ => false

/-- `_validate_controls` for a given sampling control. -/
def validateControls (py : PyText) (sampling : Json) : Except String Fields :=
  match sampling with
  | .obj fields => do
    let sampling ← validateSamplingOverrides py "sampling" (.obj fields)
    guardE (sampling.all fun e => match e.2 with
      | .int _ => true
      | .float _ => true
      | _ => false) "sampling values must be finite numbers"
    return sampling
  | _ => .error "sampling must be a mapping"

/-- `set(runtime) == set(sampling)`. -/
def sameKeys (l m : Fields) : Bool :=
  (l.all fun e => Fields.has m e.1) && m.all fun e => Fields.has l e.1

/-- `_check_sampling_response`. -/
def checkSamplingResponse (payload sampling : Fields) : Except String Unit :=
  match Fields.get payload "runtime" with
  | .obj runtime =>
    guardE (matchesSampling (.obj runtime) sampling && sameKeys runtime sampling &&
        matchesSampling (Fields.get payload "effective") (applyTemperatureFloor sampling))
      "Proxy did not apply the requested sampling distribution"
  | _ => .error "Proxy did not apply the requested sampling distribution"

end RolloutProxy
