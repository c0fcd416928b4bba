/-
  File:      RolloutProxy/Engine/Versions.lean
  Subject:   THE POLICY VERSION OF A TURN: what `_weight_version` (rollout_vllm.py) accepts of the
             version spans of a native vLLM response.

  * `Tiled` says that spans follow each other without gap or overlap, and which versions they
    name; `vllmSpans_iff` is the loop against it.
  * **`weightVersion_exact`**: a turn gets the version of its spans exactly where one version
    tiles all its tokens; without spans it keeps the version of the response.
-/
import RolloutProxy.Engine.Dialects

namespace RolloutProxy

/-! ## 1. Spans in a row -/

/-- The object covers `[start, stop)` under `version`. -/
structure SpanOf (span : Json) (start stop : Int) (version : String) : Prop where
  object : ∃ fields : Fields, span = .obj fields ∧ fields.get "start" = .int start ∧
    fields.get "end" = .int stop ∧ fields.get "version" = .str version
  nonempty : start < stop
  named : version ≠ ""

/-- The spans cover `[start, stop)` one after the other and name these versions. -/
def Tiled : Int → List Json → List String → Int → Prop
  | start, [], [], stop => start = stop
  | start, span :: rest, version :: versions, stop =>
    ∃ next, SpanOf span start next version ∧ Tiled next rest versions stop
  | _, _, _, _ => False

theorem Tiled.le : ∀ {start stop : Int} {spans : List Json} {versions : List String},
    Tiled start spans versions stop → start ≤ stop
  | _, _, [], [], h => le_of_eq h
  | _, _, [], _ :: _, h => h.elim
  | _, _, _ :: _, [], h => h.elim
  | _, _, _ :: _, _ :: _, ⟨_, hspan, hrest⟩ => hspan.nonempty.le.trans hrest.le

/-- One turn of the loop: the span starts where the last one ended and stays in the completion. -/
theorem vllmSpan_iff {count : Nat} {covered stop : Int} {span : Json} {version : String} :
    vllmSpan count covered span = some (stop, version) ↔
      SpanOf span covered stop version ∧ stop ≤ count := by
  constructor
  · intro h
    cases span with
    | obj fields =>
      simp only [vllmSpan] at h
      split at h
      · next s e v hs he hv =>
        split at h
        · next hspan =>
          cases h
          obtain ⟨rfl, hlt, hle, hne⟩ := hspan
          exact ⟨⟨⟨fields, rfl, hs, he, hv⟩, hlt, hne⟩, hle⟩
        · cases h
      · cases h
    | _ => cases h
  · rintro ⟨⟨⟨fields, rfl, hs, he, hv⟩, hlt, hne⟩, hle⟩
    simp only [vllmSpan, hs, he, hv]
    exact if_pos ⟨trivial, hlt, hle, hne⟩

/-- **The loop accepts the spans that tile a part of the completion**, and collects what they
    name. -/
theorem vllmSpans_iff {count : Nat} {stop : Int} {versions : List String} :
    ∀ {covered : Int} {seen : List String} {spans : List Json}, covered ≤ count →
      (vllmSpans count covered seen spans = some (stop, versions) ↔
        ∃ named, Tiled covered spans named stop ∧ stop ≤ count ∧
          versions = (seen ++ named).eraseDups)
  | covered, seen, [], hle => by
      constructor
      · intro h
        cases h
        exact ⟨[], rfl, hle, by rw [List.append_nil]⟩
      · rintro ⟨named, htiled, -, rfl⟩
        cases named with
        | nil =>
          cases htiled
          rw [List.append_nil]
          rfl
        | cons v named => exact htiled.elim
  | covered, seen, span :: rest, hle => by
      constructor
      · intro h
        cases hspan : vllmSpan count covered span with
        | none =>
          simp only [vllmSpans, hspan] at h
          cases h
        | some p =>
          obtain ⟨next, version⟩ := p
          simp only [vllmSpans, hspan] at h
          obtain ⟨hof, hnext⟩ := vllmSpan_iff.mp hspan
          obtain ⟨named, htiled, hstop, rfl⟩ := (vllmSpans_iff hnext).mp h
          exact ⟨version :: named, ⟨next, hof, htiled⟩, hstop, by rw [List.append_assoc]; rfl⟩
      · rintro ⟨named, htiled, hstop, rfl⟩
        cases named with
        | nil => exact htiled.elim
        | cons version named =>
          obtain ⟨next, hof, hrest⟩ := htiled
          have hnext : next ≤ count := hrest.le.trans hstop
          simp only [vllmSpans, vllmSpan_iff.mpr ⟨hof, hnext⟩]
          exact (vllmSpans_iff hnext).mpr ⟨named, hrest, hstop, by rw [List.append_assoc]; rfl⟩

/-! ## 2. One version -/

/-- Versions that are named once each are one version where all names agree. -/
theorem eraseDups_singleton {versions : List String} {v : String} :
    versions.eraseDups = [v] ↔ versions ≠ [] ∧ ∀ w ∈ versions, w = v := by
  constructor
  · intro h
    refine ⟨?_, fun w hw => ?_⟩
    · rintro rfl
      cases h
    · have hmem := List.mem_eraseDups.mpr hw
      rw [h] at hmem
      exact List.mem_singleton.mp hmem
  · rintro ⟨hne, hall⟩
    cases versions with
    | nil => exact absurd rfl hne
    | cons w rest =>
      obtain ⟨rfl, hrest⟩ := List.forall_mem_cons.mp hall
      have hnone : rest.filter (fun b => !b == w) = [] := by
        rw [List.filter_eq_nil_iff]
        intro b hb
        simp [hrest b hb]
      rw [List.eraseDups_cons, hnone]
      rfl

/-- One version sampled all `count` tokens: its spans start at 0, follow each other and end at the
    last token. -/
def SampledUnder (v : String) (count : Nat) (spans : List Json) : Prop :=
  ∃ named, named ≠ [] ∧ (∀ w ∈ named, w = v) ∧ Tiled 0 spans named count

theorem vllmSpans_single {count : Nat} {v : String} {spans : List Json} :
    vllmSpans count 0 [] spans = some ((count : Int), [v]) ↔ SampledUnder v count spans := by
  rw [vllmSpans_iff (by omega)]
  constructor
  · rintro ⟨named, htiled, -, hone⟩
    obtain ⟨hne, hall⟩ := eraseDups_singleton.mp hone.symm
    exact ⟨named, hne, hall, htiled⟩
  · rintro ⟨named, hne, hall, htiled⟩
    exact ⟨named, htiled, le_rfl, (eraseDups_singleton.mpr ⟨hne, hall⟩).symm⟩

/-- No version is named where there are no spans, and only there. -/
theorem vllmSpans_nothing {count : Nat} {spans : List Json} :
    vllmSpans count 0 [] spans = some ((count : Int), []) ↔ spans = [] ∧ count = 0 := by
  rw [vllmSpans_iff (by omega)]
  constructor
  · rintro ⟨named, htiled, -, hone⟩
    cases named with
    | nil =>
      cases spans with
      | nil => exact ⟨rfl, by simpa [Tiled] using htiled.symm⟩
      | cons span rest => exact htiled.elim
    | cons v named =>
      rw [List.nil_append, List.eraseDups_cons] at hone
      cases hone
  · rintro ⟨rfl, rfl⟩
    exact ⟨[], rfl, le_rfl, rfl⟩

/-! ## 3. The version of a turn -/

section

variable {py : PyText} {output choice : Fields} {count : Nat} {m : EngineMeta}

/-- The response names no version, or this one. -/
def TopLevel (py : PyText) (output : Fields) (v : String) : Prop :=
  output.get "weight_version" = .null ∨ py.str (output.get "weight_version") = v

theorem topLevel_iff {v : String} :
    (engineMetaOf py output).weightVersion.getD v = v ↔ TopLevel py output v := by
  unfold TopLevel engineMetaOf
  cases h : output.get "weight_version" with
  | null => exact iff_of_true rfl (.inl rfl)
  | _ => simp

/-- What is done with the spans of a response. -/
theorem weightVersion_spans {spans : List Json} (h : choice.get "weight_versions" = .arr spans) :
    vllmWeightVersion py output choice count = .ok m ↔
      (spans = [] ∧ count = 0 ∧ m = engineMetaOf py output) ∨
      ∃ v, SampledUnder v count spans ∧ TopLevel py output v ∧
        m = { engineMetaOf py output with weightVersion := some v } := by
  rw [← and_assoc, ← vllmSpans_nothing]
  simp only [vllmWeightVersion, h, ← vllmSpans_single, ← topLevel_iff]
  cases hspans : vllmSpans count 0 [] spans with
  | none => simp
  | some p =>
    obtain ⟨covered, versions⟩ := p
    simp only [Option.some.injEq, Prod.mk.injEq]
    by_cases hcovered : covered = count
    · subst hcovered
      match versions with
      | [] => simpa using eq_comm
      | [v] =>
        by_cases hv : (engineMetaOf py output).weightVersion.getD v = v
        · simpa [hv] using eq_comm
        · simp [hv]
      | v :: w :: rest => simp
    · simp [hcovered]

/-- What is not accepted is the engine's fault. -/
theorem weightVersion_error {e : PyError}
    (h : vllmWeightVersion py output choice count = .error e) : ∃ text, e = .engine text := by
  unfold vllmWeightVersion at h
  split at h
  · cases h
  · split at h
    · cases h
      exact ⟨_, rfl⟩
    · split at h
      · cases h
        exact ⟨_, rfl⟩
      · split at h
        · cases h
        · simp only at h
          split at h
          · cases h
            exact ⟨_, rfl⟩
          · cases h
  · cases h
    exact ⟨_, rfl⟩

/-- **A turn gets one policy version only if one policy sampled all of it.** Spans are accepted
    where they tile the tokens under one version that the response does not contradict, or where
    there are neither spans nor tokens; without spans the response's version is kept, and none is
    made up. Everything else is an engine error. -/
theorem weightVersion_exact (py : PyText) (output choice : Fields) (count : Nat) :
    (∀ m, vllmWeightVersion py output choice count = .ok m ↔
      (choice.get "weight_versions" = .null ∧ m = engineMetaOf py output) ∨
      (choice.get "weight_versions" = .arr [] ∧ count = 0 ∧ m = engineMetaOf py output) ∨
      ∃ spans v, choice.get "weight_versions" = .arr spans ∧ SampledUnder v count spans ∧
        TopLevel py output v ∧ m = { engineMetaOf py output with weightVersion := some v }) ∧
    (∀ e, vllmWeightVersion py output choice count = .error e → ∃ text, e = .engine text) ∧
    ((engineMetaOf py output).weightVersion = none ↔ output.get "weight_version" = .null) := by
  refine ⟨fun m => ?_, fun e he => ?_, ?_⟩
  · cases h : choice.get "weight_versions" with
    | null => simpa [vllmWeightVersion, h] using eq_comm
    | arr spans => simp [weightVersion_spans h]
    | _ => simp [vllmWeightVersion, h]
  · exact weightVersion_error he
  · unfold engineMetaOf
    cases h : output.get "weight_version" with
    | null => exact iff_of_true rfl rfl
    | _ => simp

end

end RolloutProxy
