/-
  File:      RolloutProxy/Service/Pins.lean
  Subject:   TRUST ON FIRST USE: the identity a proxy reports for a model (`fingerprint_payload`,
             model_registry.py) and the collector's check of it before a rollout
             (`check_tokenizer`, client.py).

  * A pin file is what the check reads of it: absent, unreadable, no JSON object, or pins. One
    collector writes it, so a check is one step.
  * **`template_trusted`**: over any run of checks, what passes for a model serves the tokenizer of
    its checkpoint, and the chat format of the first check that passed.
-/
import RolloutProxy.Tokenization.Fingerprint
import RolloutProxy.Provider.State

namespace RolloutProxy

open CanonicalJson CanonicalJson.Data

/-! ## 1. What the proxy reports -/

section Report

variable {φ : Type} (sha256 : ByteArray → String) (repr : φ → List Char) (corpus : List String)

def FingerprintComponents.toJson (c : FingerprintComponents) : Json :=
  .obj [("probe", .str c.probe), ("vocab", .str c.vocab), ("vocab_size", .int c.vocabSize),
    ("added_tokens", .str c.addedTokens), ("backend", .str c.backend), ("encoding", .str c.encoding),
    ("structural", .obj [("merges", .str c.structuralMerges),
      ("normalizer_chain", .str c.structuralNormalizerChain)])]

/-- `template_pin` of a profile over the template its tokenizer was loaded with. -/
def Profile.pin (profile : Profile) (templateSha256 : String) : String :=
  templatePin sha256 repr templateSha256 profile.generationPrompt profile.assistantTurnEnd
    profile.continuationHeaders profile.assistantTurnEndings

/-- `fingerprint_payload`, of a profile and the tokenizer it serves `model` with. -/
def fingerprintPayload (profile : Profile) (tokenizer : FastTokenizer φ) (model : String) :
    Except String Fields := do
  let f ← tokenizerFingerprint sha256 repr corpus tokenizer
  return [("model", .str model), ("algorithm", .str f.algorithm),
      ("corpus_sha256", .str f.corpusSha256), ("fingerprint", .str f.fingerprint),
      ("components", f.components.toJson), ("template_sha256", .str f.templateSha256),
      ("profile", .str profile.name), ("generation_prompt", .str profile.generationPrompt),
      ("assistant_turn_end", .str profile.assistantTurnEnd)] ++
    (if profile.continuationHeaders = [] then []
      else [("continuation_headers", .arr (profile.continuationHeaders.map .str))]) ++
    (if profile.assistantTurnEndings = [] then []
      else [("assistant_turn_endings", .arr (profile.assistantTurnEndings.map .str))]) ++
    [("template_pin", .str (profile.pin sha256 repr f.templateSha256))]

/-! ## 2. What the collector checks -/

/-- `_check_tokenizer_response`: the pin the response reports. -/
def checkTokenizerResponse (checkpoint : FingerprintPayload) (remote : Fields) (model : String) :
    Except String String := do
  guardE ((remote.get "model").pyEq (.str model))
    "Proxy returned a tokenizer fingerprint for another model"
  guardE ((remote.get "algorithm").pyEq (.str fingerprintAlgorithm) &&
      (remote.get "corpus_sha256").pyEq (.str (probeCorpusDigest sha256 repr corpus)))
    "Incompatible tokenizer fingerprint protocol"
  guardE ((remote.get "fingerprint").pyEq (.str checkpoint.fingerprint))
    "Checkpoint and proxy tokenizers do not match"
  match remote.get "template_pin" with
  | .str pin =>
    if pin = "" then .error "Proxy did not report its serving-template pin" else .ok pin
  | _ => .error "Proxy did not report its serving-template pin"

end Report

/-- What stands where a pin file should. -/
inductive PinFile where
  | absent
  /-- `json.loads` raises -/
  | unreadable (error : String)
  /-- JSON, but no object -/
  | other
  | pins (d : Dict String Json)

namespace PinFile

def malformed : String := "Template pin file must map model names to nonempty pins"

/-- `isinstance(v, str) and v`. -/
def isPin : Json → Bool
  | .str s => s != ""
  | _ => false

/-- The pins in the file. -/
def read : PinFile → Except String (Dict String Json)
  | .absent => .ok ∅
  | .unreadable e => .error e
  | .other => .error malformed
  | .pins d => if d.entries.all fun e => isPin e.2 then .ok d else .error malformed

/-- What is pinned for a model. -/
def pin? (file : PinFile) (model : String) : Option Json :=
  match file with
  | .pins d => d.get? model
  | _ => none

end PinFile

/-- The entries in the order of their keys: `json.dumps(pins, sort_keys=True)`. -/
def sortedDict (d : Dict String Json) : Dict String Json where
  entries := d.entries.insertionSort byKey
  nodup := ((List.perm_insertionSort byKey d.entries).map Prod.fst).nodup_iff.mpr d.nodup

/-- `_check_template_pin`: the temporary file replaces the pin file, unless writing it fails. -/
def checkTemplatePin (py : PyText) (model pin : String) (fault : Option String) (file : PinFile) :
    Except String Unit × PinFile :=
  match file.read with
  | .error e => (.error e, file)
  | .ok pins =>
    match pins.get? model with
    | some pinned =>
      if pinned.pyEq (.str pin) then (.ok (), file)
      else (.error ("Serving template changed for " ++ py.repr (.str model) ++
        "; review and update its pin explicitly"), file)
    | none =>
      match fault with
      | some e => (.error e, file)
      | none => (.ok (), .pins (sortedDict (pins.set model (.str pin))))

/-- One call of `check_tokenizer`: the checkpoint's tokenizer, what the request brings, whether
    there is a pin file, and the error of writing it. -/
structure TokenizerCheck (φ : Type) where
  checkpoint : FastTokenizer φ
  model : String
  remote : Except String Fields
  pinned : Bool
  fault : Option String

section Check

variable {φ : Type} (sha256 : ByteArray → String) (repr : φ → List Char) (corpus : List String)
  (py : PyText)

/-- `check_tokenizer`. -/
def checkTokenizer (c : TokenizerCheck φ) (file : PinFile) : Except String Fields × PinFile :=
  match tokenizerFingerprint sha256 repr corpus c.checkpoint with
  | .error e => (.error e, file)
  | .ok checkpoint =>
    match c.remote with
    | .error e => (.error e, file)
    | .ok remote =>
      match checkTokenizerResponse sha256 repr corpus checkpoint remote c.model with
      | .error e => (.error e, file)
      | .ok pin =>
        if c.pinned then
          match checkTemplatePin py c.model pin c.fault file with
          | (.error e, file) => (.error e, file)
          | (.ok _, file) => (.ok remote, file)
        else (.ok remote, file)

/-- The file behind a run of checks. -/
def fileAfter (checks : List (TokenizerCheck φ)) (file : PinFile) : PinFile :=
  checks.foldl (fun file c => (checkTokenizer sha256 repr corpus py c file).2) file

end Check

/-! ## 3. The pin file over a run -/

theorem sortedDict_get? (d : Dict String Json) (k : String) : (sortedDict d).get? k = d.get? k :=
  Option.ext fun v => by
    rw [Dict.get?_eq_some_iff, Dict.get?_eq_some_iff]
    exact (List.perm_insertionSort byKey d.entries).mem_iff

/-- What is read is what is pinned. -/
theorem PinFile.pin?_of_read {file : PinFile} {pins : Dict String Json}
    (h : file.read = .ok pins) (model : String) : file.pin? model = pins.get? model := by
  cases file with
  | absent =>
    cases h
    rfl
  | unreadable e => cases h
  | other => cases h
  | pins d =>
    simp only [PinFile.read] at h
    split at h
    · cases h
      rfl
    · cases h

/-- **What is pinned stays pinned.** -/
theorem checkTemplatePin_keeps (py : PyText) (model pin : String) (fault : Option String)
    {file : PinFile} {k : String} {v : Json} (h : file.pin? k = some v) :
    (checkTemplatePin py model pin fault file).2.pin? k = some v := by
  unfold checkTemplatePin
  cases hread : file.read with
  | error e => exact h
  | ok pins =>
    rw [PinFile.pin?_of_read hread] at h
    simp only
    cases hget : pins.get? model with
    | some pinned =>
      simp only
      split <;> exact (PinFile.pin?_of_read hread k).trans h
    | none =>
      cases fault with
      | some e => exact (PinFile.pin?_of_read hread k).trans h
      | none =>
        have hne : k ≠ model := fun he => by
          rw [he, hget] at h
          cases h
        simp only [PinFile.pin?, sortedDict_get?, Dict.get?_set, if_neg hne]
        exact h

/-- A check that passes leaves its pin in the file. -/
theorem checkTemplatePin_ok (py : PyText) (model pin : String) (fault : Option String)
    (file : PinFile) (h : (checkTemplatePin py model pin fault file).1 = .ok ()) :
    (checkTemplatePin py model pin fault file).2.pin? model = some (.str pin) := by
  unfold checkTemplatePin at h ⊢
  cases hread : file.read with
  | error e =>
    rw [hread] at h
    cases h
  | ok pins =>
    simp only [hread] at h ⊢
    cases hget : pins.get? model with
    | some pinned =>
      simp only [hget] at h ⊢
      split at h
      · next heq =>
        rw [if_pos heq, PinFile.pin?_of_read hread, hget, pyEq_str_right heq]
      · cases h
    | none =>
      simp only [hget] at h ⊢
      cases fault with
      | some e => cases h
      | none => simp only [PinFile.pin?, sortedDict_get?, Dict.get?_set, if_true]

/-- A file of pins stays one. -/
theorem checkTemplatePin_readable (py : PyText) (model : String) {pin : String}
    (fault : Option String) {file : PinFile} (hpin : pin ≠ "") (h : Returns file.read) :
    Returns (checkTemplatePin py model pin fault file).2.read := by
  obtain ⟨pins, hread⟩ := h
  unfold checkTemplatePin
  simp only [hread]
  cases hget : pins.get? model with
  | some pinned =>
    simp only
    split <;> exact ⟨pins, hread⟩
  | none =>
    cases fault with
    | some e => exact ⟨pins, hread⟩
    | none =>
      have hall : ∀ e ∈ pins.entries, PinFile.isPin e.2 = true := by
        cases file with
        | absent =>
          cases hread
          exact fun _ he => by cases he
        | unreadable e => cases hread
        | other => cases hread
        | pins d =>
          simp only [PinFile.read] at hread
          split at hread
          · next h =>
            cases hread
            exact List.all_eq_true.mp h
          · cases hread
      have hset : (sortedDict (pins.set model (.str pin))).entries.all
          (fun e => PinFile.isPin e.2) = true := by
        refine List.all_eq_true.mpr fun e he => ?_
        have he' := (List.perm_insertionSort byKey _).mem_iff.mp he
        rw [Dict.set_entries_of_none _ hget] at he'
        rcases List.mem_append.mp he' with he' | he'
        · exact hall e he'
        · rw [List.mem_singleton.mp he']
          exact bne_iff_ne.mpr hpin
      exact ⟨sortedDict (pins.set model (.str pin)), by simp only [PinFile.read, hset, if_true]⟩

section Run

variable {φ : Type} {sha256 : ByteArray → String} {repr : φ → List Char} {corpus : List String}
  {py : PyText}

theorem checkTokenizer_keeps {c : TokenizerCheck φ} {file : PinFile} {k : String} {v : Json}
    (h : file.pin? k = some v) :
    (checkTokenizer sha256 repr corpus py c file).2.pin? k = some v := by
  unfold checkTokenizer
  split
  · exact h
  · split
    · exact h
    · split
      · exact h
      · split
        · next pin _ _ =>
          have hkeeps := checkTemplatePin_keeps py c.model pin c.fault h
          split
          · next hcheck =>
            rw [hcheck] at hkeeps
            exact hkeeps
          · next hcheck =>
            rw [hcheck] at hkeeps
            exact hkeeps
        · exact h

/-- **A check never breaks the file.** -/
theorem checkTokenizer_readable (c : TokenizerCheck φ) {file : PinFile} (h : Returns file.read) :
    Returns (checkTokenizer sha256 repr corpus py c file).2.read := by
  unfold checkTokenizer
  split
  · exact h
  · split
    · exact h
    · split
      · exact h
      · next pin hresponse =>
        have hpin : pin ≠ "" := by
          obtain ⟨-, -, hread⟩ := bind_ok hresponse
          obtain ⟨-, -, hread⟩ := bind_ok hread
          obtain ⟨-, -, hread⟩ := bind_ok hread
          split at hread
          · split at hread
            · cases hread
            · next hne => exact Except.ok.inj hread ▸ hne
          · cases hread
        split
        · have hreadable := checkTemplatePin_readable py c.model c.fault hpin h
          split
          · next hcheck =>
            rw [hcheck] at hreadable
            exact hreadable
          · next hcheck =>
            rw [hcheck] at hreadable
            exact hreadable
        · exact h

theorem fileAfter_readable : ∀ (checks : List (TokenizerCheck φ)) {file : PinFile},
    Returns file.read → Returns (fileAfter sha256 repr corpus py checks file).read
  | [], _, h => h
  | c :: checks, _, h => fileAfter_readable checks (checkTokenizer_readable c h)

theorem fileAfter_keeps {k : String} {v : Json} : ∀ (checks : List (TokenizerCheck φ))
    (file : PinFile), file.pin? k = some v →
      (fileAfter sha256 repr corpus py checks file).pin? k = some v
  | [], _, h => h
  | _ :: checks, _, h => fileAfter_keeps checks _ (checkTokenizer_keeps h)

theorem fileAfter_append (l m : List (TokenizerCheck φ)) (file : PinFile) :
    fileAfter sha256 repr corpus py (l ++ m) file =
      fileAfter sha256 repr corpus py m (fileAfter sha256 repr corpus py l file) :=
  List.foldl_append

/-- What a check that passes has seen. -/
theorem checkTokenizer_passed {c : TokenizerCheck φ} {file : PinFile} {remote : Fields}
    (hpinned : c.pinned = true)
    (h : (checkTokenizer sha256 repr corpus py c file).1 = .ok remote) :
    c.remote = .ok remote ∧ ∃ checkpoint pin,
      tokenizerFingerprint sha256 repr corpus c.checkpoint = .ok checkpoint ∧
      remote.get "fingerprint" = .str checkpoint.fingerprint ∧
      remote.get "template_pin" = .str pin ∧
      (checkTokenizer sha256 repr corpus py c file).2.pin? c.model = some (.str pin) := by
  unfold checkTokenizer at h ⊢
  cases hcheckpoint : tokenizerFingerprint sha256 repr corpus c.checkpoint with
  | error e =>
    rw [hcheckpoint] at h
    cases h
  | ok checkpoint =>
    cases hremote : c.remote with
    | error e =>
      simp only [hcheckpoint, hremote] at h
      cases h
    | ok fields =>
      simp only [hcheckpoint, hremote, hpinned, if_true] at h ⊢
      cases hresponse : checkTokenizerResponse sha256 repr corpus checkpoint fields c.model with
      | error e =>
        rw [hresponse] at h
        cases h
      | ok pin =>
        simp only [hresponse] at h ⊢
        cases hpin : checkTemplatePin py c.model pin c.fault file with
        | mk outcome after =>
          rw [hpin] at h
          cases outcome with
          | error e => cases h
          | ok u =>
            cases h
            have hafter := checkTemplatePin_ok py c.model pin c.fault file (by rw [hpin])
            rw [hpin] at hafter
            -- the response named the checkpoint's fingerprint, and this pin
            obtain ⟨-, -, hread⟩ := bind_ok hresponse
            obtain ⟨-, -, hread⟩ := bind_ok hread
            obtain ⟨_, hfingerprint, hread⟩ := bind_ok hread
            have hsame := pyEq_str_right (guardE_ok.mp hfingerprint)
            refine ⟨rfl, checkpoint, pin, rfl, hsame, ?_, hafter⟩
            split at hread
            · next found hfound =>
              split at hread
              · cases hread
              · rw [hfound, Except.ok.inj hread]
            · cases hread

/-- What the proxy reports under the two names the check compares. -/
theorem fingerprintPayload_reports {profile : Profile} {tokenizer : FastTokenizer φ}
    {model : String} {remote : Fields}
    (h : fingerprintPayload sha256 repr corpus profile tokenizer model = .ok remote) :
    ∃ f, tokenizerFingerprint sha256 repr corpus tokenizer = .ok f ∧
      remote.get "fingerprint" = .str f.fingerprint ∧
      remote.get "template_pin" = .str (profile.pin sha256 repr f.templateSha256) := by
  obtain ⟨f, hf, h⟩ := bind_ok h
  cases h
  refine ⟨f, hf, rfl, ?_⟩
  split <;> split <;> rfl

/-- A proxy's tokenizer and the profile it serves with it. -/
structure Served (φ : Type) where
  profile : Profile
  tokenizer : FastTokenizer φ

variable (sha256 repr corpus) in
/-- The texts that are hashed where a proxy reports what it serves. -/
def Served.texts (s : Served φ) : List ByteArray :=
  hashedTexts sha256 repr corpus s.tokenizer ++
    [canonicalBytes repr s.tokenizer.chatTemplate,
      canonicalBytes repr (.obj (templateMarkers (sha256Of sha256 repr s.tokenizer.chatTemplate)
        s.profile.generationPrompt s.profile.assistantTurnEnd s.profile.continuationHeaders
        s.profile.assistantTurnEndings) : Data (Number φ))]

/-- One chat format: the template, up to the order of object keys, and the profile's markers. -/
structure SameFormat (s t : Served φ) : Prop where
  template : Alike s.tokenizer.chatTemplate t.tokenizer.chatTemplate
  generationPrompt : s.profile.generationPrompt = t.profile.generationPrompt
  assistantTurnEnd : s.profile.assistantTurnEnd = t.profile.assistantTurnEnd
  continuationHeaders : s.profile.continuationHeaders = t.profile.continuationHeaders
  assistantTurnEndings : s.profile.assistantTurnEndings = t.profile.assistantTurnEndings

/-- **Equal pins are those of one chat format.** -/
theorem pin_sameFormat (hrepr : FloatRepr repr) {s t : Served φ}
    (hsha : CollisionFree sha256 (s.texts sha256 repr corpus ++ t.texts sha256 repr corpus))
    (h : s.profile.pin sha256 repr (sha256Of sha256 repr s.tokenizer.chatTemplate) =
      t.profile.pin sha256 repr (sha256Of sha256 repr t.tokenizer.chatTemplate)) :
    SameFormat s t := by
  have hmarkers := (sha256Of_iff hrepr hsha (by simp [Served.texts]) (by simp [Served.texts])).mp h
  obtain ⟨htemplate, hprompt, hend, hheaders, hendings⟩ := templateMarkers_iff.mp hmarkers
  have halike := (sha256Of_iff hrepr hsha (by simp [Served.texts])
    (by simp [Served.texts])).mp htemplate
  exact ⟨(sortKeys_eq_iff s.tokenizer.templateOnce t.tokenizer.templateOnce).mp halike, hprompt,
    hend, hheaders, hendings⟩

/-- Both tokenizers have the fingerprint that was compared. -/
theorem sameTokenizer_of_report (hrepr : FloatRepr repr) {t u : FastTokenizer φ}
    {f g : FingerprintPayload} (hf : tokenizerFingerprint sha256 repr corpus t = .ok f)
    (hg : tokenizerFingerprint sha256 repr corpus u = .ok g)
    (hsha : CollisionFree sha256
      (hashedTexts sha256 repr corpus t ++ hashedTexts sha256 repr corpus u))
    (h : f.fingerprint = g.fingerprint) : SameTokenizer corpus t u := by
  obtain ⟨p, hp, hfp⟩ := fingerprint_parts hf
  obtain ⟨q, hq, hgq⟩ := fingerprint_parts hg
  rw [hfp, hgq] at h
  exact (components_iff hrepr hp hq hsha).mp h

theorem templateSha256_eq {t : FastTokenizer φ} {f : FingerprintPayload}
    (h : tokenizerFingerprint sha256 repr corpus t = .ok f) :
    f.templateSha256 = sha256Of sha256 repr t.chatTemplate := by
  obtain ⟨p, -, h⟩ := bind_ok h
  cases h
  rfl

theorem CollisionFree.mono {l m : List ByteArray} (h : CollisionFree sha256 m) (hsub : l ⊆ m) :
    CollisionFree sha256 l := fun a ha b hb => h a (hsub ha) b (hsub hb)

variable (sha256 repr corpus py) in
/-- The check passed behind the others, for what the proxy served. -/
structure Passed (file : PinFile) (before : List (TokenizerCheck φ)) (c : TokenizerCheck φ)
    (s : Served φ) : Prop where
  pinned : c.pinned = true
  served : c.remote = fingerprintPayload sha256 repr corpus s.profile s.tokenizer c.model
  returned : ∃ remote,
    (checkTokenizer sha256 repr corpus py c (fileAfter sha256 repr corpus py before file)).1 =
      .ok remote

/-- A check that passed compared its two tokenizers, and left the pin of what was served. -/
theorem Passed.reports (hrepr : FloatRepr repr) {file : PinFile}
    {before : List (TokenizerCheck φ)} {c : TokenizerCheck φ} {s : Served φ}
    (h : Passed sha256 repr corpus py file before c s)
    (hsha : CollisionFree sha256
      (hashedTexts sha256 repr corpus c.checkpoint ++ s.texts sha256 repr corpus)) :
    SameTokenizer corpus c.checkpoint s.tokenizer ∧
      (fileAfter sha256 repr corpus py (before ++ [c]) file).pin? c.model =
        some (.str (s.profile.pin sha256 repr (sha256Of sha256 repr s.tokenizer.chatTemplate))) := by
  obtain ⟨remote, hreturned⟩ := h.returned
  obtain ⟨hremote, checkpoint, pin, hcheckpoint, hsame, hpin, hafter⟩ :=
    checkTokenizer_passed h.pinned hreturned
  obtain ⟨f, hf, hreported, hreportedPin⟩ := fingerprintPayload_reports (h.served ▸ hremote)
  constructor
  · refine sameTokenizer_of_report hrepr hcheckpoint hf (hsha.mono fun a ha => ?_) ?_
    · rcases List.mem_append.mp ha with ha | ha
      · exact List.mem_append_left _ ha
      · exact List.mem_append_right _ (List.mem_append_left _ ha)
    · rw [hsame] at hreported
      exact Json.str.inj hreported
  · rw [hpin, templateSha256_eq hf] at hreportedPin
    rw [fileAfter_append, ← Json.str.inj hreportedPin]
    exact hafter

/-- **Trust on first use.** Over any run of checks on one pin file, two checks of one model that
    pass served the tokenizers of their checkpoints and one chat format. -/
theorem template_trusted (hrepr : FloatRepr repr) {file : PinFile}
    {before between : List (TokenizerCheck φ)} {c d : TokenizerCheck φ} {s t : Served φ}
    (hc : Passed sha256 repr corpus py file before c s)
    (hd : Passed sha256 repr corpus py file (before ++ [c] ++ between) d t)
    (hmodel : d.model = c.model)
    (hsha : CollisionFree sha256 (hashedTexts sha256 repr corpus c.checkpoint ++
      hashedTexts sha256 repr corpus d.checkpoint ++ s.texts sha256 repr corpus ++
      t.texts sha256 repr corpus)) :
    SameTokenizer corpus c.checkpoint s.tokenizer ∧
      SameTokenizer corpus d.checkpoint t.tokenizer ∧ SameFormat s t := by
  have hsub : ∀ {l : List ByteArray}, (∀ a ∈ l, a ∈ hashedTexts sha256 repr corpus c.checkpoint ++
      hashedTexts sha256 repr corpus d.checkpoint ++ s.texts sha256 repr corpus ++
      t.texts sha256 repr corpus) → CollisionFree sha256 l := fun h => hsha.mono h
  obtain ⟨hsameC, hpinC⟩ := hc.reports hrepr (hsub fun a ha => by
    simp only [List.mem_append] at ha ⊢
    tauto)
  obtain ⟨hsameD, hpinD⟩ := hd.reports hrepr (hsub fun a ha => by
    simp only [List.mem_append] at ha ⊢
    tauto)
  -- the pin of the first check still stands where the second one leaves its own
  have hkept : (fileAfter sha256 repr corpus py (between ++ [d])
      (fileAfter sha256 repr corpus py (before ++ [c]) file)).pin? c.model = _ :=
    fileAfter_keeps _ _ hpinC
  rw [← fileAfter_append, ← List.append_assoc, ← hmodel, hpinD] at hkept
  have hpins := Json.str.inj (Option.some.inj hkept)
  exact ⟨hsameC, hsameD, pin_sameFormat hrepr (hsub fun a ha => by
    simp only [List.mem_append] at ha ⊢
    tauto) hpins.symm⟩

/-- A response that reports the checkpoint's fingerprint is accepted, with the pin it reports. -/
theorem checkTokenizerResponse_reports {profile : Profile} {u : FastTokenizer φ}
    {model : String} {f g : FingerprintPayload} {remote : Fields}
    (hremote : fingerprintPayload sha256 repr corpus profile u model = .ok remote)
    (hg : tokenizerFingerprint sha256 repr corpus u = .ok g)
    (hsame : f.fingerprint = g.fingerprint)
    (hpin : profile.pin sha256 repr g.templateSha256 ≠ "") :
    checkTokenizerResponse sha256 repr corpus f remote model =
      .ok (profile.pin sha256 repr g.templateSha256) := by
  have halgorithm : g.algorithm = fingerprintAlgorithm ∧
      g.corpusSha256 = probeCorpusDigest sha256 repr corpus := by
    obtain ⟨p, -, hg⟩ := bind_ok hg
    cases hg
    exact ⟨rfl, rfl⟩
  obtain ⟨g', hg', hreported, hreportedPin⟩ := fingerprintPayload_reports hremote
  rw [hg] at hg'
  cases hg'
  obtain ⟨g', hg', hfields⟩ := bind_ok hremote
  rw [hg] at hg'
  cases hg'
  have hmodel : remote.get "model" = .str model := by
    cases hfields
    rfl
  have hprotocol : remote.get "algorithm" = .str g.algorithm ∧
      remote.get "corpus_sha256" = .str g.corpusSha256 := by
    cases hfields
    exact ⟨rfl, rfl⟩
  unfold checkTokenizerResponse
  simp only [hmodel, hprotocol, halgorithm, hreported, hreportedPin, hsame, Json.pyEq_str,
    beq_self_eq_true, Bool.and_self, guardE, if_true, ok_bind, if_neg hpin]

/-- **An unchanged deployment passes**: the checkpoint's tokenizer is served, and the file has no
    pin for the model or the pin of what is served. -/
theorem checkTokenizer_passes {c : TokenizerCheck φ} {s : Served φ} {file : PinFile}
    {pins : Dict String Json} {f g : FingerprintPayload}
    (hserved : c.remote = fingerprintPayload sha256 repr corpus s.profile s.tokenizer c.model)
    (hf : tokenizerFingerprint sha256 repr corpus c.checkpoint = .ok f)
    (hg : tokenizerFingerprint sha256 repr corpus s.tokenizer = .ok g)
    (hsame : f.fingerprint = g.fingerprint)
    (hpin : s.profile.pin sha256 repr g.templateSha256 ≠ "") (hread : file.read = .ok pins)
    (hheld : ∀ v, pins.get? c.model = some v →
      v = .str (s.profile.pin sha256 repr g.templateSha256)) (hfault : c.fault = none) :
    ∃ remote, (checkTokenizer sha256 repr corpus py c file).1 = .ok remote := by
  obtain ⟨remote, hremote⟩ : ∃ remote, fingerprintPayload sha256 repr corpus s.profile s.tokenizer
      c.model = .ok remote := by
    unfold fingerprintPayload
    rw [hg]
    exact ⟨_, rfl⟩
  have hresponse := checkTokenizerResponse_reports hremote hg hsame hpin
  refine ⟨remote, ?_⟩
  unfold checkTokenizer
  simp only [hf, hserved, hremote, hresponse]
  split
  · unfold checkTemplatePin
    simp only [hread, hfault]
    cases hget : pins.get? c.model with
    | none => rfl
    | some v => simp only [hheld v hget, Json.pyEq_str, beq_self_eq_true, if_true]
  · rfl

end Run

/-! ## 4. Two checks that pass -/

section Example

def plainProfile : Profile where
  name := "plain"
  generationPrompt := "<|assistant|>"
  assistantTurnEnd := "<|end|>"
  continuationHeaders := []
  assistantTurnEndings := ["<|end|>", "<|call|>"]
  prepareDeltaMessages := none
  defaultReasoningEffort := none
  reasoningEfforts := []
  stopTokenIds := []

def doubleRepr : Double → List Char := fun x => exactRepr x.1

def plainServed (t : FastTokenizer Double) : Served Double := ⟨plainProfile, t⟩

/-- A check of the checkpoint `t` where `u` is served. -/
def plainCheck (t u : FastTokenizer Double) : TokenizerCheck Double where
  checkpoint := t
  model := "m"
  remote := fingerprintPayload plainDigest doubleRepr ["ab", "é"] plainProfile u "m"
  pinned := true
  fault := none

theorem plainDigest_ne (b : ByteArray) : plainDigest b ≠ "" := fun h => by
  have hlist := congrArg String.toList h
  unfold plainDigest at hlist
  rw [String.toList_ofList] at hlist
  cases hlist

theorem plain_same {t u : FastTokenizer Double} {f g : FingerprintPayload}
    (hf : tokenizerFingerprint plainDigest doubleRepr ["ab", "é"] t = .ok f)
    (hg : tokenizerFingerprint plainDigest doubleRepr ["ab", "é"] u = .ok g)
    (h : SameTokenizer ["ab", "é"] t u) : f.fingerprint = g.fingerprint := by
  obtain ⟨p, hp, hfp⟩ := fingerprint_parts hf
  obtain ⟨q, hq, hgq⟩ := fingerprint_parts hg
  rw [hfp, hgq]
  exact (components_iff exactRepr_floatRepr hp hq fun _ _ _ _ h => plainDigest_injective h).mpr h

theorem plainCheck_served (t u : FastTokenizer Double) : (plainCheck t u).remote =
    fingerprintPayload plainDigest doubleRepr ["ab", "é"] (plainServed u).profile
      (plainServed u).tokenizer (plainCheck t u).model := by
  unfold plainCheck plainServed
  rfl

theorem plain_returns {t : FastTokenizer Double} (h : t = spelledJoined ∨ t = spelledPaired) :
    ∃ f, tokenizerFingerprint plainDigest doubleRepr ["ab", "é"] t = .ok f := by
  rcases h with rfl | rfl <;> exact ⟨_, rfl⟩

theorem plain_collisionFree (texts : List ByteArray) : CollisionFree plainDigest texts :=
  fun _ _ _ _ h => plainDigest_injective h

/-- A check behind checks that pinned what is served, or nothing. -/
theorem plain_passed {py : PyText} {before : List (TokenizerCheck Double)}
    {t u : FastTokenizer Double} (ht : t = spelledJoined ∨ t = spelledPaired)
    (hu : u = spelledJoined ∨ u = spelledPaired) (hsame : SameTokenizer ["ab", "é"] t u)
    (hheld : ∀ v, (fileAfter plainDigest doubleRepr ["ab", "é"] py before .absent).pin? "m" = some v →
      v = .str (plainProfile.pin plainDigest doubleRepr
        (sha256Of plainDigest doubleRepr u.chatTemplate))) :
    Passed plainDigest doubleRepr ["ab", "é"] py .absent before (plainCheck t u) (plainServed u) := by
  obtain ⟨f, hf⟩ := plain_returns ht
  obtain ⟨g, hg⟩ := plain_returns hu
  obtain ⟨pins, hpins⟩ := @fileAfter_readable _ plainDigest doubleRepr ["ab", "é"] py before .absent
    ⟨∅, rfl⟩
  refine ⟨rfl, plainCheck_served t u, ?_⟩
  refine checkTokenizer_passes (plainCheck_served t u) hf hg (plain_same hf hg hsame)
    (plainDigest_ne _) hpins (fun v hv => ?_) rfl
  rw [templateSha256_eq hg]
  exact hheld v ((PinFile.pin?_of_read hpins "m").trans hv)

def plainPy : PyText := ⟨fun j => j.asStr.getD "", fun j => "'" ++ j.asStr.getD "" ++ "'"⟩

theorem template_trusted_plain :
    SameTokenizer ["ab", "é"] spelledJoined spelledPaired ∧
      SameTokenizer ["ab", "é"] spelledJoined spelledJoined ∧
      SameFormat (plainServed spelledPaired) (plainServed spelledJoined) := by
  have hself : SameTokenizer ["ab", "é"] spelledJoined spelledJoined := by
    obtain ⟨f, hf⟩ := plain_returns (.inl rfl)
    exact sameTokenizer_of_report exactRepr_floatRepr hf hf (plain_collisionFree _) rfl
  have hfirst : Passed plainDigest doubleRepr ["ab", "é"] plainPy .absent []
      (plainCheck spelledJoined spelledPaired) (plainServed spelledPaired) :=
    plain_passed (.inl rfl) (.inr rfl) (spelled_same _) fun v hv => by cases hv
  have hpin := (hfirst.reports exactRepr_floatRepr (plain_collisionFree _)).2
  have hsecond : Passed plainDigest doubleRepr ["ab", "é"] plainPy .absent
      ([] ++ [plainCheck spelledJoined spelledPaired] ++ [])
      (plainCheck spelledJoined spelledJoined) (plainServed spelledJoined) :=
    plain_passed (.inl rfl) (.inl rfl) hself fun v hv => Option.some.inj (hv.symm.trans hpin)
  exact template_trusted exactRepr_floatRepr hfirst hsecond rfl (plain_collisionFree _)

end Example

end RolloutProxy
