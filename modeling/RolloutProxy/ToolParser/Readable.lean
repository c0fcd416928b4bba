/-
  File:      RolloutProxy/ToolParser/Readable.lean
  Subject:   WHICH TEXTS A DIALECT CAN READ: what it hands to the JSON library, and when every one of
             these calls raises nothing the dialect does not catch.

  Each `…Reads` names the calls of the library one parser makes on its input; the lemma beside it
  says that the parser returns exactly there. A decoder that refuses a text (`ValueError`) is
  caught; one that runs out of stack is not.
-/
import RolloutProxy.ToolParser.Blocks
import RolloutProxy.ToolParser.Harmony

namespace RolloutProxy.ToolParser

variable (lib : JsonLib)

/-- The computation raises `ValueError` at most. -/
def OnlyValueError {α : Type} (x : Except JsonError α) : Prop := ∀ e, x = .error e → e = .valueError

/-! ## 1. Calls from JSON objects -/

/-- A decoded object that carries a name. -/
def isCallObject : Json → Bool
  | .obj fields => (Fields.get fields "name").truthy
  | _ => false

/-- `arguments`, or Llama's `parameters`. -/
def callArguments (fields : Fields) : Json :=
  if (Fields.get fields "arguments").isNull then Fields.get fields "parameters"
  else Fields.get fields "arguments"

/-- What is encoded of arguments that are no string. -/
def encodedArguments : Json → Json
  | .obj d => .obj d
  | _ => .obj []

/-- The name can be written, and the arguments encoded. -/
def CallReads (object : Json) : Prop :=
  ∀ fields, object = .obj fields → (Fields.get fields "name").truthy = true →
    Returns (nameText lib (Fields.get fields "name")) ∧
      ((callArguments fields).asStr = none →
        Returns (lib.dumps (encodedArguments (callArguments fields))))

/-- A named call with its arguments. -/
def encodedCall (name : List Char) (arguments : Json) : Except JsonError (Option ParsedCall) :=
  match arguments with
  | .str s => .ok (some ⟨name, s.toList⟩)
  | arguments => do return some ⟨name, ← lib.dumps (encodedArguments arguments)⟩

theorem toolCallFromObject_named {fields : Fields}
    (hn : (Fields.get fields "name").truthy = true) :
    toolCallFromObject lib (.obj fields) = (do
      let name ← nameText lib (Fields.get fields "name")
      encodedCall lib name (callArguments fields)) := by
  unfold toolCallFromObject callArguments
  simp only [hn, if_true]
  congr 1
  funext name
  cases hnull : (Fields.get fields "arguments").isNull with
  | true =>
    simp only [if_true]
    cases Fields.get fields "parameters" <;> rfl
  | false =>
    simp only [Bool.false_eq_true, if_false]
    cases Fields.get fields "arguments" <;> rfl

theorem toolCallFromObject_unnamed {object : Json} (h : isCallObject object = false) :
    toolCallFromObject lib object = .ok none := by
  unfold toolCallFromObject
  split
  · next fields =>
    have hn : (Fields.get fields "name").truthy = false := h
    simp only [hn, Bool.false_eq_true, if_false]
  · rfl

theorem encodedCall_returns (name : List Char) (arguments : Json) :
    Returns (encodedCall lib name arguments) ↔
      (arguments.asStr = none → Returns (lib.dumps (encodedArguments arguments))) := by
  unfold encodedCall
  split
  · next s => exact ⟨fun _ h => (by cases h), fun _ => returns_ok _⟩
  · next hs =>
    rw [returns_bind_left fun _ => returns_pure _]
    refine ⟨fun h _ => h, fun h => h ?_⟩
    cases arguments with
    | str s => exact absurd rfl (hs s)
    | _ => rfl

theorem toolCallFromObject_returns (object : Json) :
    Returns (toolCallFromObject lib object) ↔ CallReads lib object := by
  cases hc : isCallObject object with
  | false =>
    rw [toolCallFromObject_unnamed lib hc]
    refine ⟨fun _ fields hf hn => ?_, fun _ => returns_ok none⟩
    subst hf
    exact absurd hn (Bool.eq_false_iff.mp hc)
  | true =>
    cases object with
    | obj fields =>
      have hn : (Fields.get fields "name").truthy = true := hc
      rw [toolCallFromObject_named lib hn, returns_bind]
      constructor
      · rintro ⟨name, hname, h⟩ f hf -
        cases hf
        exact ⟨⟨name, hname⟩, (encodedCall_returns lib name _).mp h⟩
      · intro h
        obtain ⟨⟨name, hname⟩, hd⟩ := h fields rfl hn
        exact ⟨name, hname, (encodedCall_returns lib name _).mpr hd⟩
    | _ => cases hc

theorem toolCallFromObject_none {object : Json} {r : Option ParsedCall}
    (h : toolCallFromObject lib object = .ok r) : r = none ↔ isCallObject object = false := by
  cases hc : isCallObject object with
  | false =>
    rw [toolCallFromObject_unnamed lib hc] at h
    cases h
    exact ⟨fun _ => rfl, fun _ => rfl⟩
  | true =>
    cases object with
    | obj fields =>
      rw [toolCallFromObject_named lib hc] at h
      obtain ⟨name, -, h⟩ := bind_ok h
      refine ⟨fun hr => ?_, nofun⟩
      subst hr
      unfold encodedCall at h
      split at h
      · cases h
      · obtain ⟨t, -, h⟩ := bind_ok h
        cases h
    | _ => cases hc

/-! ## 2. JSON dialects -/

/-- What Hermes decodes: a block, and the call it holds. -/
def HermesReads (block : List Char) : Prop :=
  OnlyValueError (lib.loads block) ∧ ∀ object, lib.loads block = .ok object → CallReads lib object

/-- The block decodes to an object that carries a name. -/
def HoldsCall (block : List Char) : Prop :=
  ∃ object, lib.loads block = .ok object ∧ isCallObject object = true

theorem hermesBlock_returns (block : List Char) :
    Returns (hermesBlock lib block) ↔ HermesReads lib block := by
  unfold hermesBlock HermesReads
  cases hl : lib.loads block with
  | error e =>
    cases e with
    | valueError =>
      exact ⟨fun _ => ⟨fun e he => by cases he; rfl, fun o ho => by cases ho⟩,
        fun _ => returns_ok _⟩
    | overflowError =>
      exact ⟨fun h => absurd h (not_returns_error _), fun h => by cases h.1 _ rfl⟩
    | recursionError =>
      exact ⟨fun h => absurd h (not_returns_error _), fun h => by cases h.1 _ rfl⟩
  | ok object =>
    refine Iff.trans (returns_bind_left fun r => by cases r <;> exact returns_pure _) ?_
    rw [toolCallFromObject_returns]
    exact ⟨fun h => ⟨fun e he => (by cases he), fun o ho => (by cases ho; exact h)⟩,
      fun h => h.2 object rfl⟩

theorem hermesBlock_empty {block : List Char} (h : HermesReads lib block) :
    hermesBlock lib block = .ok (some []) ↔ ¬ HoldsCall lib block := by
  unfold hermesBlock HoldsCall
  cases hl : lib.loads block with
  | error e =>
    have he := h.1 e hl
    subst he
    exact ⟨fun _ ⟨o, ho, _⟩ => (by cases ho), fun _ => rfl⟩
  | ok object =>
    obtain ⟨r, hr⟩ := (toolCallFromObject_returns lib object).mpr (h.2 object hl)
    have hnone := toolCallFromObject_none lib hr
    simp only [hr, ok_bind]
    cases r with
    | none =>
      have hobj := hnone.mp rfl
      exact ⟨fun _ ⟨o, ho, hc⟩ => (by cases ho; rw [hobj] at hc; cases hc), fun _ => rfl⟩
    | some call =>
      have hobj : isCallObject object = true := by
        cases hc : isCallObject object with
        | true => rfl
        | false => exact absurd (hnone.mpr hc) nofun
      exact ⟨fun hp => (by cases hp), fun hp => absurd ⟨object, rfl, hobj⟩ hp⟩

/-- The decoded objects of a Llama turn, up to the first that is no call. -/
def ObjectsRead : List Json → Prop
  | [] => True
  | object :: rest => CallReads lib object ∧ (isCallObject object = true → ObjectsRead rest)

theorem callsFromObjects_returns : ∀ objects : List Json,
    Returns (callsFromObjects lib objects) ↔ ObjectsRead lib objects
  | [] => ⟨fun _ => trivial, fun _ => returns_ok _⟩
  | object :: rest => by
      unfold callsFromObjects ObjectsRead
      rw [returns_bind, ← toolCallFromObject_returns]
      constructor
      · rintro ⟨r, hr, hrest⟩
        refine ⟨⟨r, hr⟩, fun hobj => ?_⟩
        cases r with
        | none =>
          rw [(toolCallFromObject_none lib hr).mp rfl] at hobj
          cases hobj
        | some call =>
          exact (callsFromObjects_returns rest).mp
            ((returns_bind_left fun _ => returns_pure _).mp hrest)
      · rintro ⟨⟨r, hr⟩, hrest⟩
        refine ⟨r, hr, ?_⟩
        cases r with
        | none => exact returns_pure _
        | some call =>
          refine (returns_bind_left fun _ => returns_pure _).mpr
            ((callsFromObjects_returns rest).mpr (hrest ?_))
          cases hc : isCallObject object with
          | true => rfl
          | false => exact absurd ((toolCallFromObject_none lib hr).mpr hc) nofun

/-- `decoded if isinstance(decoded, list) else [decoded]`. -/
def decodedObjects : Json → List Json
  | .arr objects => objects
  | object => [object]

/-- The turn starts like a JSON object or array. -/
def startsJson (text : List Char) : Bool :=
  match text with
  | c :: _ => c == '{' || c == '['
  | [] => false

/-- What Llama decodes: the whole turn, and the calls in it. -/
def LlamaReads (text : List Char) : Prop :=
  startsJson text = true →
    OnlyValueError (lib.loads text) ∧
      ∀ decoded, lib.loads text = .ok decoded → ObjectsRead lib (decodedObjects decoded)

theorem parseJsonCalls_returns (text : List Char) :
    Returns (parseJsonCalls lib text) ↔ LlamaReads lib text := by
  unfold parseJsonCalls LlamaReads startsJson
  cases text with
  | nil => exact ⟨fun _ h => (by cases h), fun _ => returns_ok _⟩
  | cons c rest =>
    simp only
    split
    · next hc =>
      simp only [hc, true_imp_iff]
      cases hl : lib.loads (c :: rest) with
      | error e =>
        cases e with
        | valueError =>
          exact ⟨fun _ => ⟨fun e he => by cases he; rfl, fun o ho => by cases ho⟩,
            fun _ => returns_ok _⟩
        | overflowError =>
          exact ⟨fun h => absurd h (not_returns_error _), fun h => by cases h.1 _ rfl⟩
        | recursionError =>
          exact ⟨fun h => absurd h (not_returns_error _), fun h => by cases h.1 _ rfl⟩
      | ok decoded =>
        have hdecoded : ObjectsRead lib (decodedObjects decoded) ↔
            OnlyValueError (.ok decoded) ∧
              ∀ object, (.ok decoded : Except JsonError Json) = .ok object →
                ObjectsRead lib (decodedObjects object) :=
          ⟨fun h => ⟨fun e he => (by cases he), fun o ho => (by cases ho; exact h)⟩,
            fun h => h.2 decoded rfl⟩
        rw [← hdecoded, ← callsFromObjects_returns]
        cases decoded <;> exact returns_bind_left fun _ => returns_pure _
    · next hc => exact ⟨fun _ h => absurd h hc, fun _ => returns_ok _⟩

theorem llamaParse_returns (text : List Char) :
    Returns (llamaParse lib text) ↔ LlamaReads lib (stripChars text) := by
  unfold llamaParse
  rw [returns_bind_left fun calls => ?_, parseJsonCalls_returns]
  cases calls <;> exact returns_pure _

/-- A turn the decoder refuses is content. -/
theorem llamaParse_refused {text : List Char} {e : JsonError} {r : List Char × List ParsedCall}
    (h : llamaParse lib text = .ok r) (hl : lib.loads (stripChars text) = .error e) :
    r = (stripChars text, []) := by
  unfold llamaParse at h
  obtain ⟨calls, hcalls, h⟩ := bind_ok h
  have hnil : calls = [] := by
    unfold parseJsonCalls at hcalls
    split at hcalls
    · cases hcalls
      rfl
    · split at hcalls
      · rw [hl] at hcalls
        cases e <;> cases hcalls
        rfl
      · cases hcalls
        rfl
  subst hnil
  cases h
  rfl

/-! ## 3. Argument values -/

/-- A value the schema declares as text. -/
def declaresText (declared : Option String) : Bool := declared = some "string" || declared = some "str"

/-- A value that is text, or that the decoder takes or refuses. -/
def ValueReads (declared : Option String) (value : List Char) : Prop :=
  declaresText declared = false → OnlyValueError (lib.loads value)

/-- What a value becomes: the literal text where the schema says so or the decoder refuses it. -/
def coerced (value : List Char) (declared : Option String) : Json :=
  if declaresText declared then .str (String.ofList value)
  else
    match lib.loads value with
    | .ok v => v
    | .error _ => .str (String.ofList value)

theorem coerce_eq {value : List Char} {declared : Option String}
    (h : ValueReads lib declared value) :
    coerce lib value declared = .ok (coerced lib value declared) := by
  unfold ValueReads at h
  unfold coerce coerced
  cases hd : declaresText declared with
  | true =>
    rw [if_pos (by simpa [declaresText] using hd)]
    rfl
  | false =>
    rw [if_neg (by simpa [declaresText] using hd)]
    simp only [Bool.false_eq_true, if_false]
    cases hl : lib.loads value with
    | ok v => rfl
    | error e =>
      rw [h hd e hl]
      rfl

theorem coerce_returns (value : List Char) (declared : Option String) :
    Returns (coerce lib value declared) ↔ ValueReads lib declared value := by
  refine ⟨fun ⟨v, hv⟩ hd e he => ?_, fun h => ⟨_, coerce_eq lib h⟩⟩
  unfold coerce at hv
  rw [if_neg (by simpa [declaresText] using hd), he] at hv
  cases e with
  | valueError => rfl
  | overflowError => cases hv
  | recursionError => cases hv

/-! ## 4. XML dialects -/

/-- The arguments that keys and values make. -/
def coercedArguments (declared : List Char → Option String) (arguments : Fields)
    (pairs : List (List Char × List Char)) : Fields :=
  pairs.foldl (fun arguments p =>
    Fields.set arguments (String.ofList p.1) (coerced lib p.2 (declared p.1))) arguments

/-- `value.removeprefix("\n").removesuffix("\n")` of every parameter. -/
def trimmed (params : List (List Char × List Char)) : List (List Char × List Char) :=
  params.map fun p => (p.1, trimNewlines p.2)

theorem qwenArguments_eq {declared : List Char → Option String} :
    ∀ {params : List (List Char × List Char)} {arguments : Fields},
      (∀ p ∈ trimmed params, ValueReads lib (declared p.1) p.2) →
        qwenArguments lib declared arguments params =
          .ok (coercedArguments lib declared arguments (trimmed params))
  | [], _, _ => rfl
  | (key, value) :: rest, arguments, h => by
      unfold qwenArguments
      rw [coerce_eq lib (h (key, trimNewlines value) List.mem_cons_self), ok_bind,
        qwenArguments_eq fun p hp => h p (List.mem_cons_of_mem _ hp)]
      rfl

theorem qwenArguments_returns {declared : List Char → Option String} :
    ∀ {params : List (List Char × List Char)} {arguments : Fields},
      Returns (qwenArguments lib declared arguments params) →
        ∀ p ∈ trimmed params, ValueReads lib (declared p.1) p.2
  | [], _, _ => by simp [trimmed]
  | (key, value) :: rest, arguments, h => by
      unfold qwenArguments at h
      obtain ⟨v, hv, h⟩ := returns_bind.mp h
      rw [trimmed, List.map_cons, List.forall_mem_cons]
      exact ⟨(coerce_returns lib _ _).mp ⟨v, hv⟩, qwenArguments_returns h⟩

/-- The parameters of a function, and whether its markup is intact. -/
def functionParameters (body : List Char) : List (List Char × List Char) × Bool :=
  let params := splitSections body parameterMarker Reasoning.parameterClose
  (trimmed params.1, params.2 && !(params.1.isEmpty && !body.all isSpace))

/-- The values of a function can be read, and its arguments encoded. -/
def FunctionReads (types : Dict String (Dict String String)) (name body : List Char) : Prop :=
  (∀ p ∈ (functionParameters body).1,
    ValueReads lib (declaredType types name p.1) p.2) ∧
  Returns (lib.dumps
    (.obj (coercedArguments lib (declaredType types name) [] (functionParameters body).1)))

/-- What Qwen decodes: the functions of a block up to a damaged one. -/
def FunctionsRead (types : Dict String (Dict String String)) :
    List (List Char × List Char) → Prop
  | [] => True
  | (name, body) :: rest =>
    (functionParameters body).2 = true → FunctionReads lib types name body ∧ FunctionsRead types rest

theorem qwenCalls_returns (types : Dict String (Dict String String)) :
    ∀ functions : List (List Char × List Char),
      Returns (qwenCalls lib types functions) ↔ FunctionsRead lib types functions
  | [] => ⟨fun _ => trivial, fun _ => returns_ok _⟩
  | (name, body) :: rest => by
      unfold qwenCalls FunctionsRead FunctionReads functionParameters
      simp only
      split
      · next hd =>
        refine ⟨fun _ hi => ?_, fun _ => returns_ok _⟩
        exfalso
        revert hd hi
        cases (splitSections body parameterMarker Reasoning.parameterClose).2 <;>
          cases (splitSections body parameterMarker Reasoning.parameterClose).1.isEmpty &&
            !body.all isSpace <;> simp
      · next hd =>
        have hi : ((splitSections body parameterMarker Reasoning.parameterClose).2 &&
            !((splitSections body parameterMarker Reasoning.parameterClose).1.isEmpty &&
              !body.all isSpace)) = true := by
          revert hd
          cases (splitSections body parameterMarker Reasoning.parameterClose).2 <;>
            cases (splitSections body parameterMarker Reasoning.parameterClose).1.isEmpty &&
              !body.all isSpace <;> simp
        simp only [hi, true_imp_iff]
        rw [returns_bind]
        constructor
        · rintro ⟨arguments, ha, h⟩
          have hvalues := qwenArguments_returns lib ⟨arguments, ha⟩
          rw [qwenArguments_eq lib hvalues] at ha
          cases ha
          obtain ⟨text, htext, h⟩ := returns_bind.mp h
          exact ⟨⟨hvalues, text, htext⟩,
            (qwenCalls_returns types rest).mp ((returns_bind_left fun _ => returns_pure _).mp h)⟩
        · rintro ⟨⟨hvalues, text, htext⟩, hrest⟩
          refine ⟨_, qwenArguments_eq lib hvalues, returns_bind.mpr ⟨text, htext, ?_⟩⟩
          exact (returns_bind_left fun _ => returns_pure _).mpr
            ((qwenCalls_returns types rest).mpr hrest)

/-- The functions of a block, and whether its markup is intact. -/
def blockFunctions (block : List Char) : List (List Char × List Char) × Bool :=
  splitSections block functionMarker Reasoning.functionClose

/-- What Qwen decodes of a block. -/
def QwenReads (types : Dict String (Dict String String)) (block : List Char) : Prop :=
  (blockFunctions block).2 = true → FunctionsRead lib types (blockFunctions block).1

theorem qwenBlock_returns (types : Dict String (Dict String String)) (block : List Char) :
    Returns (qwenBlock lib types block) ↔ QwenReads lib types block := by
  unfold qwenBlock QwenReads blockFunctions
  simp only
  cases (splitSections block functionMarker Reasoning.functionClose).2 with
  | false => exact ⟨fun _ => nofun, fun _ => returns_ok _⟩
  | true =>
    simp only [Bool.not_true, Bool.false_eq_true, if_false, true_imp_iff]
    exact qwenCalls_returns lib types _

/-- A block of Qwen holds no call, with its markup intact, where it has no function. -/
theorem qwenBlock_empty {types : Dict String (Dict String String)} {block : List Char} :
    qwenBlock lib types block = .ok (some []) ↔
      (blockFunctions block).2 = true ∧ (blockFunctions block).1 = [] := by
  unfold qwenBlock blockFunctions
  simp only
  cases (splitSections block functionMarker Reasoning.functionClose).2 with
  | false => exact ⟨nofun, nofun⟩
  | true =>
    simp only [Bool.not_true, Bool.false_eq_true, if_false, true_and]
    cases (splitSections block functionMarker Reasoning.functionClose).1 with
    | nil => exact ⟨fun _ => rfl, fun _ => rfl⟩
    | cons f rest =>
      refine ⟨fun h => ?_, nofun⟩
      unfold qwenCalls at h
      simp only at h
      split at h
      · cases h
      · obtain ⟨_, -, h⟩ := bind_ok h
        obtain ⟨_, -, h⟩ := bind_ok h
        obtain ⟨calls, -, h⟩ := bind_ok h
        cases calls <;> cases h

/-- The keys and values of a GLM block up to the first damage, and whether there is none. -/
def glmPairs : Nat → List String → List Char → List (List Char × List Char) × Bool
  | 0, _, _ => ([], false)
  | fuel + 1, seen, rest =>
    match partition keyClose rest with
    | none => ([], false)
    | some (key, rest) =>
      let key := stripChars key
      if key.isEmpty || key.contains '<' || key.contains '>' ||
          seen.contains (String.ofList key) then ([], false)
      else
        let rest := lstrip rest
        if !valueOpen.isPrefixOf rest then ([], false)
        else
          match partition valueClose (rest.drop valueOpen.length) with
          | none => ([], false)
          | some (value, rest) =>
            let rest := stripChars rest
            if rest.isEmpty then ([(key, value)], true)
            else if !keyOpen.isPrefixOf rest then ([(key, value)], false)
            else
              let later := glmPairs fuel (String.ofList key :: seen) (rest.drop keyOpen.length)
              ((key, value) :: later.1, later.2)

/-- The loop of GLM decodes these values, in order. -/
theorem glmArguments_spec {declared : List Char → Option String} :
    ∀ {fuel : Nat} {arguments : Fields} {seen : List String} {rest : List Char},
      (∀ k, Fields.has arguments k = seen.contains k) →
        (Returns (glmArguments lib declared fuel arguments rest) ↔
          ∀ p ∈ (glmPairs fuel seen rest).1, ValueReads lib (declared p.1) p.2) ∧
        ((∀ p ∈ (glmPairs fuel seen rest).1, ValueReads lib (declared p.1) p.2) →
          glmArguments lib declared fuel arguments rest =
            .ok (if (glmPairs fuel seen rest).2 then
              some (coercedArguments lib declared arguments (glmPairs fuel seen rest).1)
            else none))
  | 0, _, _, _, _ => by simp [glmArguments, glmPairs]
  | fuel + 1, arguments, seen, rest, hseen => by
      unfold glmArguments glmPairs
      cases partition keyClose rest with
      | none => simp
      | some cut =>
        obtain ⟨key, rest⟩ := cut
        simp only [hseen]
        split
        · simp
        · split
          · simp
          · cases partition valueClose ((lstrip rest).drop valueOpen.length) with
            | none => simp
            | some cut =>
              obtain ⟨value, rest⟩ := cut
              simp only
              -- the loop stops at the first value that does not read
              by_cases hv : ValueReads lib (declared (stripChars key)) value
              · rw [coerce_eq lib hv, ok_bind]
                split
                · exact ⟨by simp [hv], fun _ => rfl⟩
                · split
                  · exact ⟨by simp [hv], fun _ => rfl⟩
                  · have hset : ∀ k, Fields.has (Fields.set arguments (String.ofList (stripChars key))
                        (coerced lib value (declared (stripChars key)))) k =
                        (String.ofList (stripChars key) :: seen).contains k := by
                      intro k
                      rw [Fields.has_set, hseen, List.contains_cons]
                      rfl
                    obtain ⟨hret, heq⟩ := glmArguments_spec hset
                    rw [List.forall_mem_cons]
                    exact ⟨hret.trans ⟨fun h => ⟨hv, h⟩, fun h => h.2⟩, fun h => heq h.2⟩
              · have hno : ¬ Returns (coerce lib value (declared (stripChars key))) :=
                  fun h => hv ((coerce_returns lib _ _).mp h)
                have hhead : ∀ later : List (List Char × List Char),
                    ¬ ∀ p ∈ (stripChars key, value) :: later, ValueReads lib (declared p.1) p.2 :=
                  fun later h => hv (h _ List.mem_cons_self)
                constructor
                · refine iff_of_false (fun h => ?_) ?_
                  · obtain ⟨v, hc, -⟩ := returns_bind.mp h
                    exact hno ⟨v, hc⟩
                  · split
                    · exact hhead _
                    · split <;> exact hhead _
                · intro h
                  exfalso
                  revert h
                  split
                  · exact hhead _
                  · split <;> exact hhead _

/-- The function a GLM block names. -/
def glmName (block : List Char) : List Char :=
  stripChars ((partition keyOpen block).getD (block, [])).1

/-- A name without whitespace and angle brackets. -/
def glmNamed (block : List Char) : Bool :=
  !((glmName block).isEmpty || (glmName block).any fun ch => isSpace ch || ch == '<' || ch == '>')

/-- The keys and values of a block, and whether its markup is intact. -/
def glmBlockPairs (block : List Char) : List (List Char × List Char) × Bool :=
  if (find keyOpen block 0).isSome then
    glmPairs (block.length + 1) [] ((partition keyOpen block).getD (block, [])).2
  else ([], true)

/-- What GLM decodes of a block, and encodes where its markup is intact. -/
def GlmReads (types : Dict String (Dict String String)) (block : List Char) : Prop :=
  glmNamed block = true →
    (∀ p ∈ (glmBlockPairs block).1, ValueReads lib (declaredType types (glmName block) p.1) p.2) ∧
      ((glmBlockPairs block).2 = true → Returns (lib.dumps (.obj
        (coercedArguments lib (declaredType types (glmName block)) [] (glmBlockPairs block).1))))

/-- The arguments of a block, as the source's loop leaves them. -/
def glmBlockArguments (types : Dict String (Dict String String)) (block : List Char) :
    Except JsonError (Option Fields) :=
  if (find keyOpen block 0).isSome then
    glmArguments lib (declaredType types (glmName block)) (block.length + 1) []
      ((partition keyOpen block).getD (block, [])).2
  else .ok (some [])

/-- The call of a block, once its arguments are read. -/
def glmCall (block : List Char) : Option Fields → Except JsonError (Option (List ParsedCall))
  | none => .ok none
  | some arguments => do return some [⟨glmName block, ← lib.dumps (.obj arguments)⟩]

theorem glmBlock_named (types : Dict String (Dict String String)) {block : List Char}
    (hn : glmNamed block = true) :
    glmBlock lib types block = glmBlockArguments lib types block >>= glmCall lib block := by
  unfold glmNamed at hn
  rw [Bool.not_eq_true'] at hn
  unfold glmBlock
  simp only
  refine (if_neg fun h => Bool.false_ne_true (hn.symm.trans h)).trans ?_
  unfold glmBlockArguments
  split <;> rfl

theorem glmBlock_unnamed (types : Dict String (Dict String String)) {block : List Char}
    (hn : glmNamed block = false) : glmBlock lib types block = .ok none := by
  unfold glmNamed at hn
  rw [Bool.not_eq_false'] at hn
  unfold glmBlock
  simp only
  exact if_pos hn

/-- The values of a block are read, and its arguments are what they make. -/
theorem glmBlockArguments_spec (types : Dict String (Dict String String)) (block : List Char) :
    (Returns (glmBlockArguments lib types block) ↔ ∀ p ∈ (glmBlockPairs block).1,
      ValueReads lib (declaredType types (glmName block) p.1) p.2) ∧
    ((∀ p ∈ (glmBlockPairs block).1,
      ValueReads lib (declaredType types (glmName block) p.1) p.2) →
        glmBlockArguments lib types block = .ok (if (glmBlockPairs block).2 then
          some (coercedArguments lib (declaredType types (glmName block)) [] (glmBlockPairs block).1)
        else none)) := by
  unfold glmBlockPairs glmBlockArguments
  split
  · exact glmArguments_spec lib fun k => rfl
  · exact ⟨by simp, fun _ => rfl⟩

theorem glmBlock_returns (types : Dict String (Dict String String)) (block : List Char) :
    Returns (glmBlock lib types block) ↔ GlmReads lib types block := by
  obtain ⟨hret, heq⟩ := glmBlockArguments_spec lib types block
  unfold GlmReads
  cases hn : glmNamed block with
  | false =>
    rw [glmBlock_unnamed lib types hn]
    exact ⟨fun _ => nofun, fun _ => returns_ok _⟩
  | true =>
    rw [glmBlock_named lib types hn, returns_bind]
    simp only [true_imp_iff]
    constructor
    · rintro ⟨arguments, ha, h⟩
      have hreads := hret.mp ⟨arguments, ha⟩
      refine ⟨hreads, fun hintact => ?_⟩
      have ha' := heq hreads
      rw [hintact, if_pos rfl] at ha'
      rw [Except.ok.inj (ha.symm.trans ha')] at h
      exact (returns_bind_left fun _ => returns_pure _).mp h
    · rintro ⟨hreads, hdumps⟩
      refine ⟨_, heq hreads, ?_⟩
      cases hi : (glmBlockPairs block).2 with
      | false => exact returns_ok _
      | true => exact (returns_bind_left fun _ => returns_pure _).mpr (hdumps hi)

theorem glmBlock_not_empty (types : Dict String (Dict String String)) (block : List Char) :
    glmBlock lib types block ≠ .ok (some []) := by
  intro h
  cases hn : glmNamed block with
  | false =>
    rw [glmBlock_unnamed lib types hn] at h
    cases h
  | true =>
    rw [glmBlock_named lib types hn] at h
    obtain ⟨arguments, -, h⟩ := bind_ok h
    cases arguments with
    | none => cases h
    | some arguments =>
      obtain ⟨t, -, h⟩ := bind_ok h
      cases h

/-! ## 5. Harmony -/

/-- The computation raises what `except (ValueError, OverflowError)` catches. -/
def NoRecursionError {α : Type} (x : Except JsonError α) : Prop := x ≠ .error .recursionError

/-- What Harmony decodes: the body of a finished call, and what it is encoded to again. -/
def HarmonyReads (m : HarmonyMessage) : Prop :=
  m.isCall = true → NoRecursionError (lib.loads (stripChars m.body)) ∧
    ∀ v, lib.loads (stripChars m.body) = .ok v → NoRecursionError (lib.dumpsFinite v)

theorem decodeArguments_returns (arguments : List Char) :
    Returns (decodeArguments lib arguments) ↔ NoRecursionError (lib.loads arguments) ∧
      ∀ v, lib.loads arguments = .ok v → NoRecursionError (lib.dumpsFinite v) := by
  have hrefused : ∀ {e : JsonError}, Returns (refused e : Except JsonError (Option Json)) ↔
      e ≠ .recursionError := by
    intro e
    cases e with
    | recursionError => exact iff_of_false (not_returns_error _) (fun h => h rfl)
    | _ => exact ⟨fun _ => nofun, fun _ => returns_ok _⟩
  unfold decodeArguments NoRecursionError
  cases lib.loads arguments with
  | error e =>
    rw [hrefused]
    exact ⟨fun h => ⟨fun he => h (Except.error.inj he), nofun⟩, fun h he => h.1 (by rw [he])⟩
  | ok v =>
    simp only
    constructor
    · intro h
      refine ⟨nofun, fun v' hv' hd => ?_⟩
      cases hv'
      rw [hd] at h
      exact (not_returns_error _) h
    · intro h
      have hd := h.2 v rfl
      cases hdv : lib.dumpsFinite v with
      | ok t => exact returns_ok _
      | error e => exact hrefused.mpr fun he => hd (by rw [hdv, he])

theorem piece_returns (m : HarmonyMessage) : Returns (m.piece lib) ↔ HarmonyReads lib m := by
  unfold HarmonyMessage.piece HarmonyReads
  cases hr : m.recipient with
  | none =>
    have hcall : m.isCall = false := by simp only [HarmonyMessage.isCall, hr]
    simp only [hcall, Bool.false_eq_true, false_imp_iff, iff_true]
    split <;> exact returns_ok _
  | some recipient =>
    simp only [HarmonyMessage.handoff]
    split
    · next hcall =>
      simp only [hcall, true_imp_iff]
      rw [← decodeArguments_returns]
      exact returns_bind_left fun v => by
        split <;> exact returns_pure _
    · next hcall =>
      simp only [hcall, Bool.false_eq_true, false_imp_iff, iff_true]
      exact returns_ok _

theorem parseMessages_returns (messages : List HarmonyMessage) :
    Returns (parseMessages lib messages) ↔ ∀ m ∈ messages, HarmonyReads lib m := by
  unfold parseMessages
  rw [returns_bind_left fun _ => returns_pure _, returns_mapM]
  exact forall₂_congr fun m _ => piece_returns lib m

/-- The decoder refuses the arguments of a call, or their value. -/
def Refused (m : HarmonyMessage) : Prop :=
  ∃ e, lib.loads (stripChars m.body) = .error e ∨
    ∃ v, lib.loads (stripChars m.body) = .ok v ∧ lib.dumpsFinite v = .error e

theorem piece_refused {m : HarmonyMessage} {p : Piece} (hcall : m.isCall = true)
    (hr : Refused lib m) (h : m.piece lib = .ok p) : p = m.visible := by
  have hdecode : ∀ {o : Option Json}, decodeArguments lib (stripChars m.body) = .ok o → o = none := by
    intro o ho
    unfold decodeArguments at ho
    obtain ⟨e, he | ⟨v, hv, he⟩⟩ := hr
    · rw [he] at ho
      cases e <;> cases ho <;> rfl
    · rw [hv] at ho
      simp only [he] at ho
      cases e <;> cases ho <;> rfl
  unfold HarmonyMessage.piece at h
  cases hrec : m.recipient with
  | none =>
    simp only [HarmonyMessage.isCall, hrec] at hcall
    cases hcall
  | some recipient =>
    simp only [hrec, HarmonyMessage.handoff, hcall, if_true] at h
    obtain ⟨o, ho, h⟩ := bind_ok h
    rw [hdecode ho] at h
    cases h
    rfl

end RolloutProxy.ToolParser
