/-
  File:      RolloutProxy/Tokenization/Fingerprint.lean
  Subject:   TOKENIZER IDENTITY: `tokenizer_fingerprint` and `template_pin`
             (tokenization/fingerprint.py).

  * A loaded tokenizer is what the function reads of it: the JSON of its backend, `encode`, the
    vocabulary, the added tokens, a setting and the chat template. SHA-256, `repr` of a double and
    the probe corpus are parameters.
  * `SameTokenizer` says what the fingerprint is for, without hashing, sorting or normalising.
  * **`fingerprint_separates`**: two tokenizers have one fingerprint exactly where they are the
    same, as far as the texts hashed for them do not collide.
-/
import RolloutProxy.Lib.CanonicalJson
import RolloutProxy.Lib.Except
import RolloutProxy.JsonRead

namespace RolloutProxy

open CanonicalJson CanonicalJson.Data

/-! ## 1. Numbers and their text -/

/-- A number of the data: a Python integer, or a finite double. -/
abbrev Number (φ : Type) := Int ⊕ φ

section Numbers

variable {φ : Type}

/-- `int.__repr__` and `float.__repr__`. -/
def numText (repr : φ → List Char) : Number φ → List Char
  | .inl n => intText n
  | .inr x => repr x

/-- `repr` of a double: another text for another double, and never that of an integer. -/
structure FloatRepr (repr : φ → List Char) : Prop where
  injective : Function.Injective repr
  chars : ∀ x, ∀ c ∈ repr x, isNumberChar c = true
  notInt : ∀ x, ∃ c ∈ repr x, c.isDigit = false ∧ c ≠ '-'

theorem intText_digits (n : Int) : ∀ c ∈ intText n, c.isDigit = true ∨ c = '-' := by
  intro c hc
  unfold intText at hc
  split at hc
  · rcases List.mem_cons.mp hc with rfl | hc
    · exact .inr rfl
    · exact .inl (Nat.isDigit_of_mem_toDigits (by decide) (by decide) hc)
  · exact .inl (Nat.isDigit_of_mem_toDigits (by decide) (by decide) hc)

theorem intText_injective : Function.Injective intText := by
  intro m n h
  have hdigit : ∀ k, ∀ c ∈ Nat.toDigits 10 k, c ≠ '-' := fun k c hc hcd => by
    have hd := Nat.isDigit_of_mem_toDigits (by decide) (by decide) hc
    rw [hcd] at hd
    exact absurd hd (by decide)
  have hnat : ∀ {j k : Nat}, Nat.toDigits 10 j = Nat.toDigits 10 k → j = k := fun {j k} hjk => by
    have hj := Nat.ofDigitChars_toDigits (b := 10) (n := j) (by decide) (by decide)
    rw [hjk, Nat.ofDigitChars_toDigits (by decide) (by decide)] at hj
    exact hj.symm
  unfold intText at h
  split at h <;> split at h
  · have := hnat (List.cons.inj h).2
    omega
  · exact absurd rfl (hdigit _ '-' (h ▸ List.mem_cons_self))
  · exact absurd rfl (hdigit _ '-' (h ▸ List.mem_cons_self))
  · have := hnat h
    omega

/-- The texts of numbers are literals. -/
theorem numText_literals {repr : φ → List Char} (hrepr : FloatRepr repr) :
    Literals (numText repr) where
  injective := by
    have hne : ∀ n x, intText n ≠ repr x := fun n x h => by
      obtain ⟨c, hc, hdigit, hminus⟩ := hrepr.notInt x
      rcases intText_digits n c (h ▸ hc) with h | h
      · rw [h] at hdigit
        cases hdigit
      · exact hminus h
    rintro (m | x) (n | y) h
    · exact congrArg Sum.inl (intText_injective h)
    · exact absurd h (hne m y)
    · exact absurd h.symm (hne n x)
    · exact congrArg Sum.inr (hrepr.injective h)
  nonempty
    | .inl n => (numberOf_intText n).2.1
    | .inr x => by
        obtain ⟨c, hc, -⟩ := hrepr.notInt x
        exact List.ne_nil_of_mem hc
  chars
    | .inl n => (numberOf_intText n).1
    | .inr x => hrepr.chars x

end Numbers

/-! ## 2. What is read of a tokenizer -/

/-- `AddedToken`. -/
structure AddedToken where
  content : String
  special : Bool
  lstrip : Bool
  rstrip : Bool
  singleWord : Bool
  normalized : Bool

/-- A loaded tokenizer. -/
structure FastTokenizer (φ : Type) where
  /-- What `json.loads` makes of `backend_tokenizer.to_str()`, where there is such a backend and
      neither call raises. -/
  backend : Option (Data (Number φ))
  keysOnce : ∀ d, backend = some d → KeysOnce d
  encode : String → Except String (List Int)
  /-- `get_vocab()`, where it can be called. -/
  getVocab : Option (Dict String Int)
  addedTokensDecoder : Dict Int AddedToken
  splitSpecialTokens : Bool
  chatTemplate : Data (Number φ)
  templateOnce : KeysOnce chatTemplate

section Model

variable {φ : Type}

def serializableError : String :=
  "Strict tokenizer identity requires a serializable fast-tokenizer backend"

def modelError : String := "Strict tokenizer identity requires a serialized tokenizer model"

/-- `data`, and the fields of `data["model"]`. -/
def serializedModel (t : FastTokenizer φ) :
    Except String (List (String × Data (Number φ)) × List (String × Data (Number φ))) :=
  match t.backend with
  | none => .error serializableError
  | some (.obj data) =>
    match Dict.find "model" data with
    | some (.obj (field :: fields)) => .ok (data, field :: fields)
    | _ => .error modelError
  | some _ => .error modelError

/-- One entry of the merges: `"a b"` or `["a", "b"]`. -/
def mergePair : Data (Number φ) → Except String (String × String)
  | .str entry =>
    match entry.toList.splitOn ' ' with
    | [a, b] => .ok (String.ofList a, String.ofList b)
    | _ => .error "Cannot canonicalize tokenizer merge: expected two tokens"
  | .arr parts =>
    match parts with
    | [.str a, .str b] => .ok (a, b)
    | _ => .error "Cannot canonicalize tokenizer merge: expected two strings"
  | _ => .error "Cannot canonicalize tokenizer merge: expected a token pair"

def pairData (p : String × String) : Data (Number φ) := .arr [.str p.1, .str p.2]

/-- `_normalized_merges`. -/
def normalizedMerges : Data (Number φ) → Except String (Data (Number φ))
  | .null => .ok .null
  | .arr entries => do
    let pairs ← entries.mapM mergePair
    return .arr (pairs.map pairData)
  | _ => .error "Tokenizer merges must be an ordered list"

/-- `model["merges"] = _normalized_merges(model["merges"])`, where there are merges. -/
def normalizedModel (fields : List (String × Data (Number φ))) :
    Except String (List (String × Data (Number φ))) :=
  match Dict.find "merges" fields with
  | none => .ok fields
  | some merges => do
    let normalized ← normalizedMerges merges
    return Dict.replace "merges" normalized fields

def chainKeys : List String := ["normalizer", "pre_tokenizer", "post_processor", "decoder"]

/-- `d.get(key)`. -/
def getData (fields : List (String × Data (Number φ))) (key : String) : Data (Number φ) :=
  (Dict.find key fields).getD .null

def intData (n : Int) : Data (Number φ) := .num (.inl n)

/-- `sorted((str(token), int(token_id)) for token, token_id in vocab().items())`. A token occurs
    once, so the order is that of the tokens. -/
def vocabItems (vocab : Dict String Int) : List (String × Int) := vocab.entries.insertionSort byKey

def AddedToken.row (id : Int) (t : AddedToken) : Data (Number φ) :=
  .arr [intData id, .str t.content, .bool t.special, .bool t.lstrip, .bool t.rstrip,
    .bool t.singleWord, .bool t.normalized]

/-- `_added_token_table`: an id occurs once, so the order is that of the ids. -/
def addedTokenTable (decoder : Dict Int AddedToken) : List (Data (Number φ)) :=
  (decoder.entries.insertionSort byKey).map fun e => e.2.row e.1

/-- What is hashed of a tokenizer. -/
structure TokenizerParts (φ : Type) where
  probe : List (List Int)
  vocab : List (String × Int)
  addedTokens : List (Data (Number φ))
  model : List (String × Data (Number φ))
  chain : List (Data (Number φ))
  splitSpecialTokens : Bool

/-- The parts, in the order in which the function reads them. -/
def tokenizerParts (corpus : List String) (t : FastTokenizer φ) :
    Except String (TokenizerParts φ) := do
  let (data, fields) ← serializedModel t
  let model ← normalizedModel fields
  let probe ← corpus.mapM t.encode
  match t.getVocab with
  | none => .error "Strict tokenizer identity requires get_vocab()"
  | some vocab =>
    return {
      probe := probe
      vocab := vocabItems vocab
      addedTokens := addedTokenTable t.addedTokensDecoder
      model := model
      chain := chainKeys.map (getData data)
      splitSpecialTokens := t.splitSpecialTokens }

namespace TokenizerParts

variable (p : TokenizerParts φ)

def probeData : Data (Number φ) := .arr (p.probe.map fun ids => .arr (ids.map intData))

def vocabData : Data (Number φ) := .arr (p.vocab.map fun e => .arr [.str e.1, intData e.2])

def addedData : Data (Number φ) := .arr p.addedTokens

def backendData : Data (Number φ) := .obj [("model", .obj p.model), ("chain", .arr p.chain)]

def encodingData : Data (Number φ) := .obj [("split_special_tokens", .bool p.splitSpecialTokens)]

/-- `model.get("merges")`. -/
def mergesData : Data (Number φ) := getData p.model "merges"

def chainData : Data (Number φ) := .arr p.chain

end TokenizerParts

/-! ## 3. The fingerprint -/

def fingerprintAlgorithm : String := "v1"

structure FingerprintComponents where
  probe : String
  vocab : String
  vocabSize : Nat
  addedTokens : String
  backend : String
  encoding : String
  structuralMerges : String
  structuralNormalizerChain : String

structure FingerprintPayload where
  algorithm : String
  corpusSha256 : String
  fingerprint : String
  components : FingerprintComponents
  templateSha256 : String

section Hashing

variable (sha256 : ByteArray → String) (repr : φ → List Char) (corpus : List String)

/-- `_canonical`. -/
def canonicalBytes (v : Data (Number φ)) : ByteArray :=
  (String.ofList (canonical (numText repr) v)).toUTF8

/-- `_sha256`. -/
def sha256Of (v : Data (Number φ)) : String := sha256 (canonicalBytes repr v)

/-- `probe_corpus_digest`. -/
def probeCorpusDigest : String := sha256Of sha256 repr (.arr (corpus.map .str))

def fingerprintComponents (p : TokenizerParts φ) : FingerprintComponents where
  probe := sha256Of sha256 repr p.probeData
  vocab := sha256Of sha256 repr p.vocabData
  vocabSize := p.vocab.length
  addedTokens := sha256Of sha256 repr p.addedData
  backend := sha256Of sha256 repr p.backendData
  encoding := sha256Of sha256 repr p.encodingData
  structuralMerges := sha256Of sha256 repr p.mergesData
  structuralNormalizerChain := sha256Of sha256 repr p.chainData

/-- The object whose digest is the fingerprint. -/
def identityData (c : FingerprintComponents) : Data (Number φ) :=
  .obj [("algorithm", .str fingerprintAlgorithm),
    ("corpus", .str (probeCorpusDigest sha256 repr corpus)),
    ("probe", .str c.probe),
    ("vocab", .str c.vocab),
    ("vocab_size", intData c.vocabSize),
    ("added_tokens", .str c.addedTokens),
    ("backend", .str c.backend),
    ("encoding", .str c.encoding)]

/-- `tokenizer_fingerprint`. -/
def tokenizerFingerprint (t : FastTokenizer φ) : Except String FingerprintPayload := do
  let p ← tokenizerParts corpus t
  let c := fingerprintComponents sha256 repr p
  return {
    algorithm := fingerprintAlgorithm
    corpusSha256 := probeCorpusDigest sha256 repr corpus
    fingerprint := sha256Of sha256 repr (identityData sha256 repr corpus c)
    components := c
    templateSha256 := sha256Of sha256 repr t.chatTemplate }

/-- What `template_pin` hashes: empty headers and endings are left out. -/
def templateMarkers (templateSha256 generationPrompt assistantTurnEnd : String)
    (continuationHeaders assistantTurnEndings : List String) : List (String × Data (Number φ)) :=
  [("template_sha256", .str templateSha256), ("generation_prompt", .str generationPrompt),
    ("assistant_turn_end", .str assistantTurnEnd)] ++
  (if continuationHeaders = [] then []
    else [("continuation_headers", .arr (continuationHeaders.map .str))]) ++
  (if assistantTurnEndings = [] then []
    else [("assistant_turn_endings", .arr (assistantTurnEndings.map .str))])

/-- `template_pin`. -/
def templatePin (templateSha256 generationPrompt assistantTurnEnd : String)
    (continuationHeaders assistantTurnEndings : List String) : String :=
  sha256Of sha256 repr (.obj (templateMarkers templateSha256 generationPrompt assistantTurnEnd
    continuationHeaders assistantTurnEndings))

end Hashing

/-! ## 4. What the merges spell -/

/-- The entry spells the pair: itself, or with a blank between two tokens without one. -/
def SpellsPair (entry : Data (Number φ)) (p : String × String) : Prop :=
  entry = pairData p ∨
    (' ' ∉ p.1.toList ∧ ' ' ∉ p.2.toList ∧ entry = .str (p.1 ++ " " ++ p.2))

/-- A text without the separator, once. -/
theorem splitOn_pair {l a b : List Char} :
    l.splitOn ' ' = [a, b] ↔ ' ' ∉ a ∧ ' ' ∉ b ∧ l = a ++ ' ' :: b := by
  have hone : ∀ {m c : List Char}, m.splitOn ' ' = [c] → ' ' ∉ m ∧ m = c := fun {m c} h => by
    by_cases hm : ' ' ∈ m
    · obtain ⟨x, y, rfl, hx⟩ := List.eq_append_cons_of_mem hm
      rw [List.splitOn_append_cons_self_of_not_mem hx, List.cons.injEq] at h
      exact absurd h.2 (List.splitOn_ne_nil _ _)
    · rw [List.splitOn_eq_singleton hm, List.cons.injEq] at h
      exact ⟨hm, h.1⟩
  constructor
  · intro h
    have hl : ' ' ∈ l := by
      by_contra hno
      rw [List.splitOn_eq_singleton hno, List.cons.injEq] at h
      cases h.2
    obtain ⟨x, y, rfl, hx⟩ := List.eq_append_cons_of_mem hl
    rw [List.splitOn_append_cons_self_of_not_mem hx, List.cons.injEq] at h
    obtain ⟨hy, rfl⟩ := hone h.2
    rw [← h.1]
    exact ⟨hx, hy, rfl⟩
  · rintro ⟨ha, hb, rfl⟩
    rw [List.splitOn_append_cons_self_of_not_mem ha, List.splitOn_eq_singleton hb]

theorem mergePair_str {s : String} {p : String × String} :
    mergePair (.str s : Data (Number φ)) = .ok p ↔
      ' ' ∉ p.1.toList ∧ ' ' ∉ p.2.toList ∧ s = p.1 ++ " " ++ p.2 := by
  have hjoin : s = p.1 ++ " " ++ p.2 ↔ s.toList = p.1.toList ++ ' ' :: p.2.toList := by
    rw [← String.toList_inj, String.toList_append, String.toList_append, List.append_assoc]
    rfl
  rw [hjoin, ← splitOn_pair, mergePair]
  constructor
  · intro h
    split at h
    · next a b hab =>
      cases h
      rw [hab, String.toList_ofList, String.toList_ofList]
    · cases h
  · intro h
    rw [h]
    exact congrArg Except.ok (Prod.ext String.ofList_toList String.ofList_toList)

/-- **An entry is read as the pair it spells.** -/
theorem mergePair_ok {entry : Data (Number φ)} {p : String × String} :
    mergePair entry = .ok p ↔ SpellsPair entry p := by
  unfold SpellsPair pairData
  cases entry with
  | str s =>
    rw [mergePair_str]
    simp only [Data.str.injEq, reduceCtorEq, false_or]
  | arr parts =>
    simp only [Data.arr.injEq, reduceCtorEq, and_false, or_false]
    simp only [mergePair]
    constructor
    · intro h
      split at h
      · cases h
        rfl
      · cases h
    · intro h
      rw [h]
  | _ => simp [mergePair]

/-- Both spell the same pairs, in order; or neither has merges, or both say there are none. -/
def SameMerges : Option (Data (Number φ)) → Option (Data (Number φ)) → Prop
  | none, none => True
  | some .null, some .null => True
  | some (.arr l), some (.arr m) =>
    ∃ pairs, List.Forall₂ SpellsPair l pairs ∧ List.Forall₂ SpellsPair m pairs
  | _, _ => False

/-- An array of values that are in normal form. -/
theorem sortKeys_map {ν α : Type} {f : α → Data ν} (hf : ∀ a, sortKeys (f a) = f a) (l : List α) :
    sortKeys (.arr (l.map f)) = .arr (l.map f) := by
  rw [sortKeys, sortItems_eq, List.map_map]
  exact congrArg _ (List.map_congr_left fun a _ => hf a)

theorem pairData_keysOnce (pairs : List (String × String)) :
    KeysOnce (.arr (pairs.map pairData) : Data (Number φ)) := by
  rw [KeysOnce, keysOnceItems_forall]
  intro v hv
  obtain ⟨p, -, rfl⟩ := List.mem_map.mp hv
  simp [pairData, KeysOnce, KeysOnceItems]

theorem pairData_alike {ps qs : List (String × String)} :
    Alike (.arr (ps.map pairData) : Data (Number φ)) (.arr (qs.map pairData)) ↔ ps = qs := by
  have hplain : ∀ p, sortKeys (pairData p : Data (Number φ)) = pairData p := fun p => by
    simp [pairData, sortKeys, sortItems]
  have hinj : Function.Injective (pairData : String × String → Data (Number φ)) := fun p q h => by
    simp only [pairData, Data.arr.injEq, List.cons.injEq, Data.str.injEq, and_true] at h
    exact Prod.ext h.1 h.2
  rw [← sortKeys_eq_iff (pairData_keysOnce ps) (pairData_keysOnce qs), sortKeys_map hplain,
    sortKeys_map hplain, Data.arr.injEq, List.map_inj_right fun {p q} h => hinj h]

theorem normalizedMerges_keysOnce {x v : Data (Number φ)} (h : normalizedMerges x = .ok v) :
    KeysOnce v := by
  cases x with
  | null =>
    cases h
    trivial
  | arr entries =>
    obtain ⟨pairs, -, h⟩ := bind_ok h
    cases h
    exact pairData_keysOnce pairs
  | _ => cases h

/-- **Normalised merges are alike where the same pairs were spelled.** -/
theorem normalizedMerges_alike {x y v w : Data (Number φ)} (hx : normalizedMerges x = .ok v)
    (hy : normalizedMerges y = .ok w) : Alike v w ↔ SameMerges (some x) (some y) := by
  have hspelled : ∀ {l : List (Data (Number φ))} {ps}, l.mapM mergePair = .ok ps ↔
      List.Forall₂ SpellsPair l ps := fun {l ps} => by
    rw [mapM_ok_iff]
    exact ⟨fun h => h.imp fun _ _ => mergePair_ok.mp, fun h => h.imp fun _ _ => mergePair_ok.mpr⟩
  cases x with
  | null =>
    cases hx
    cases y with
    | null =>
      cases hy
      exact iff_of_true trivial trivial
    | arr m =>
      obtain ⟨qs, -, hy⟩ := bind_ok hy
      cases hy
      exact Iff.rfl
    | _ => cases hy
  | arr l =>
    obtain ⟨ps, hps, hx⟩ := bind_ok hx
    cases hx
    cases y with
    | null =>
      cases hy
      exact Iff.rfl
    | arr m =>
      obtain ⟨qs, hqs, hy⟩ := bind_ok hy
      cases hy
      refine pairData_alike.trans ⟨fun h => ?_, fun h => ?_⟩
      · subst h
        exact ⟨ps, hspelled.mp hps, hspelled.mp hqs⟩
      · obtain ⟨pairs, hl, hm⟩ := h
        rw [hspelled.mpr hl] at hps
        rw [hspelled.mpr hm] at hqs
        exact (Except.ok.inj hps).symm.trans (Except.ok.inj hqs)
    | _ => cases hy
  | _ => cases hx

/-- The model of the backend, its merges read as pairs. -/
structure SameModel (l m : List (String × Data (Number φ))) : Prop where
  others : ∀ key, key ≠ "merges" → Option.Rel Alike (Dict.find key l) (Dict.find key m)
  merges : SameMerges (Dict.find "merges" l) (Dict.find "merges" m)

theorem normalizedModel_cases {l l' : List (String × Data (Number φ))}
    (h : normalizedModel l = .ok l') :
    (Dict.find "merges" l = none ∧ l' = l) ∨
      ∃ x v, Dict.find "merges" l = some x ∧ normalizedMerges x = .ok v ∧
        l' = Dict.replace "merges" v l := by
  unfold normalizedModel at h
  split at h
  · next hnone =>
    cases h
    exact .inl ⟨hnone, rfl⟩
  · next x hx =>
    obtain ⟨v, hv, h⟩ := bind_ok h
    cases h
    exact .inr ⟨x, v, hx, hv, rfl⟩

theorem normalizedModel_keys {l l' : List (String × Data (Number φ))}
    (h : normalizedModel l = .ok l') : l'.map Prod.fst = l.map Prod.fst := by
  obtain ⟨-, rfl⟩ | ⟨x, v, -, -, rfl⟩ := normalizedModel_cases h
  · rfl
  · exact Dict.replace_keys _ _ _

theorem normalizedModel_keysOnce {l l' : List (String × Data (Number φ))}
    (h : normalizedModel l = .ok l') (hl : KeysOnce (.obj l)) : KeysOnce (.obj l') := by
  refine ⟨by rw [normalizedModel_keys h]; exact hl.1, ?_⟩
  obtain ⟨-, rfl⟩ | ⟨x, v, -, hv, rfl⟩ := normalizedModel_cases h
  · exact hl.2
  · rw [keysOnceFields_forall]
    intro e he
    obtain ⟨f, hf, rfl⟩ := List.mem_map.mp he
    split
    · exact normalizedMerges_keysOnce hv
    · exact keysOnceFields_forall.mp hl.2 f hf

/-- What the normalised model has under a key. -/
theorem normalizedModel_find {l l' : List (String × Data (Number φ))}
    (h : normalizedModel l = .ok l') :
    (∀ key, key ≠ "merges" → Dict.find key l' = Dict.find key l) ∧
      ((Dict.find "merges" l = none ∧ Dict.find "merges" l' = none) ∨
        ∃ x v, Dict.find "merges" l = some x ∧ normalizedMerges x = .ok v ∧
          Dict.find "merges" l' = some v) := by
  obtain ⟨hnone, rfl⟩ | ⟨x, v, hx, hv, rfl⟩ := normalizedModel_cases h
  · exact ⟨fun _ _ => rfl, .inl ⟨hnone, hnone⟩⟩
  · have hmem : "merges" ∈ l.map Prod.fst := by
      by_contra hno
      rw [(Dict.find_eq_none_iff _ _).mpr hno] at hx
      cases hx
    refine ⟨fun key hkey => by rw [Dict.find_replace, if_neg hkey], .inr ⟨x, v, hx, hv, ?_⟩⟩
    rw [Dict.find_replace, if_pos rfl, if_pos hmem]

/-- **Normalised models are alike where the models are the same.** -/
theorem normalizedModel_alike {l l' m m' : List (String × Data (Number φ))}
    (hl : normalizedModel l = .ok l') (hm : normalizedModel m = .ok m')
    (hlo : KeysOnce (.obj l)) (hmo : KeysOnce (.obj m)) :
    Alike (.obj l') (.obj m') ↔ SameModel l m := by
  rw [alike_obj_iff (normalizedModel_keysOnce hl hlo).1 (normalizedModel_keysOnce hm hmo).1]
  obtain ⟨hlothers, hlmerges⟩ := normalizedModel_find hl
  obtain ⟨hmothers, hmmerges⟩ := normalizedModel_find hm
  -- the two keep or normalise their merges each for itself
  have hmerges : Option.Rel Alike (Dict.find "merges" l') (Dict.find "merges" m') ↔
      SameMerges (Dict.find "merges" l) (Dict.find "merges" m) := by
    obtain ⟨hx, hx'⟩ | ⟨x, v, hx, hv, hx'⟩ := hlmerges <;>
      obtain ⟨hy, hy'⟩ | ⟨y, w, hy, hw, hy'⟩ := hmmerges <;> rw [hx, hx', hy, hy']
    · exact iff_of_true .none trivial
    · exact iff_of_false (fun h => by cases h) id
    · refine iff_of_false (fun h => by cases h) fun h => ?_
      cases x <;> exact h
    · rw [← normalizedMerges_alike hv hw]
      exact ⟨fun h => by cases h; assumption, .some⟩
  constructor
  · intro h
    refine ⟨fun key hkey => ?_, hmerges.mp (h "merges")⟩
    rw [← hlothers key hkey, ← hmothers key hkey]
    exact h key
  · intro h key
    by_cases hkey : key = "merges"
    · rw [hkey]
      exact hmerges.mpr h.merges
    · rw [hlothers key hkey, hmothers key hkey]
      exact h.others key hkey

/-! ## 5. Two tokenizers that are the same -/

namespace FastTokenizer

variable (t : FastTokenizer φ)

/-- The backend's fields. -/
def data : List (String × Data (Number φ)) :=
  match t.backend with
  | some (.obj data) => data
  | _ => []

/-- The fields of its model. -/
def modelFields : List (String × Data (Number φ)) :=
  match Dict.find "model" t.data with
  | some (.obj fields) => fields
  | _ => []

/-- The vocabulary, as a map. -/
def tokenId (token : String) : Option Int := t.getVocab.bind fun vocab => vocab.get? token

end FastTokenizer

/-- Everything identity covers: maps as maps, JSON up to the order of object keys, merges as
    pairs. -/
structure SameTokenizer (corpus : List String) (t u : FastTokenizer φ) : Prop where
  probe : ∀ text ∈ corpus, t.encode text = u.encode text
  vocab : ∀ token, t.tokenId token = u.tokenId token
  addedTokens : ∀ id, t.addedTokensDecoder.get? id = u.addedTokensDecoder.get? id
  model : SameModel t.modelFields u.modelFields
  chain : ∀ key ∈ chainKeys, Alike (getData t.data key) (getData u.data key)
  splitSpecialTokens : t.splitSpecialTokens = u.splitSpecialTokens

/-- What the parts were read from. -/
structure TokenizerParts.ReadFrom (corpus : List String) (p : TokenizerParts φ)
    (t : FastTokenizer φ) : Prop where
  model : normalizedModel t.modelFields = .ok p.model
  modelOnce : KeysOnce (.obj t.modelFields)
  probe : corpus.mapM t.encode = .ok p.probe
  vocab : ∃ vocab, t.getVocab = some vocab ∧ p.vocab = vocabItems vocab
  addedTokens : p.addedTokens = addedTokenTable t.addedTokensDecoder
  chain : p.chain = chainKeys.map (getData t.data)
  chainOnce : KeysOnceItems p.chain
  splitSpecialTokens : p.splitSpecialTokens = t.splitSpecialTokens

theorem find_keysOnce {fields : List (String × Data (Number φ))} (h : KeysOnceFields fields)
    {key : String} {v : Data (Number φ)} (hv : Dict.find key fields = some v) : KeysOnce v :=
  keysOnceFields_forall.mp h _ (Dict.mem_of_find hv)

theorem getData_keysOnce {fields : List (String × Data (Number φ))} (h : KeysOnceFields fields)
    (key : String) : KeysOnce (getData fields key) := by
  unfold getData
  cases hv : Dict.find key fields with
  | none => trivial
  | some v => exact find_keysOnce h hv

theorem tokenizerParts_readFrom {corpus : List String} {t : FastTokenizer φ} {p : TokenizerParts φ}
    (h : tokenizerParts corpus t = .ok p) : p.ReadFrom corpus t := by
  obtain ⟨⟨data, fields⟩, hserialized, hread⟩ := bind_ok h
  obtain ⟨model, hmodel, hread⟩ := bind_ok hread
  obtain ⟨probe, hprobe, hparts⟩ := bind_ok hread
  clear h hread
  have hfrom : t.data = data ∧ t.modelFields = fields ∧ KeysOnceFields data ∧
      KeysOnce (.obj fields) := by
    unfold serializedModel at hserialized
    split at hserialized
    · cases hserialized
    · next data' hbackend =>
      split at hserialized
      · next f fs hfind =>
        cases hserialized
        have honce := t.keysOnce _ hbackend
        have hdata : t.data = data := by
          unfold FastTokenizer.data
          rw [hbackend]
        refine ⟨hdata, ?_, honce.2, find_keysOnce honce.2 hfind⟩
        unfold FastTokenizer.modelFields
        rw [hdata, hfind]
      · cases hserialized
    · cases hserialized
  obtain ⟨rfl, rfl, hdata, hfields⟩ := hfrom
  cases hvocab : t.getVocab with
  | none =>
    simp only [hvocab] at hparts
    cases hparts
  | some vocab =>
    simp only [hvocab] at hparts
    cases hparts
    exact {
      model := hmodel
      modelOnce := hfields
      probe := hprobe
      vocab := ⟨vocab, hvocab, rfl⟩
      addedTokens := rfl
      chain := rfl
      chainOnce := keysOnceItems_forall.mpr fun v hv => by
        obtain ⟨key, -, rfl⟩ := List.mem_map.mp hv
        exact getData_keysOnce hdata key
      splitSpecialTokens := rfl }

/-- Sorted entries are equal where the dictionaries look up the same. -/
theorem sorted_entries_iff {κ β : Type} [LinearOrder κ] {d e : Dict κ β} :
    d.entries.insertionSort byKey = e.entries.insertionSort byKey ↔ ∀ k, d.get? k = e.get? k := by
  rw [sorted_eq_iff d.nodup]
  constructor
  · intro hperm k
    have hiff : ∀ v, d.get? k = some v ↔ e.get? k = some v := fun v => by
      rw [Dict.get?_eq_some_iff, Dict.get?_eq_some_iff, hperm.mem_iff]
    exact Option.ext hiff
  · intro h
    refine (List.perm_ext_iff_of_nodup (List.Nodup.of_map _ d.nodup)
      (List.Nodup.of_map _ e.nodup)).mpr fun x => ?_
    rw [← Dict.get?_eq_some_iff, ← Dict.get?_eq_some_iff, h]

section Parts

variable {corpus : List String} {t u : FastTokenizer φ} {p q : TokenizerParts φ}

theorem intData_injective : Function.Injective (intData : Int → Data (Number φ)) := fun m n h => by
  simpa [intData] using h

/-- Loops that return the same at every step, and only those, return the same. -/
theorem mapM_eq_iff {ε α β : Type} {f g : α → Except ε β} {l : List α} {bs cs : List β}
    (hf : l.mapM f = .ok bs) (hg : l.mapM g = .ok cs) : bs = cs ↔ ∀ a ∈ l, f a = g a := by
  rw [mapM_ok_iff] at hf hg
  induction hf generalizing cs with
  | nil =>
    cases hg
    exact iff_of_true rfl fun _ hm => by cases hm
  | cons ha _ ih =>
    obtain ⟨c, cs, hc, hrest, rfl⟩ := List.forall₂_cons_left_iff.mp hg
    rw [List.cons.injEq, ih hrest, List.forall_mem_cons, ha, hc, Except.ok.injEq]

theorem probeData_iff (hp : p.ReadFrom corpus t) (hq : q.ReadFrom corpus u) :
    sortKeys p.probeData = sortKeys q.probeData ↔ ∀ text ∈ corpus, t.encode text = u.encode text := by
  have hints : ∀ ids : List Int, sortKeys (.arr (ids.map intData) : Data (Number φ)) =
      .arr (ids.map intData) := sortKeys_map fun _ => rfl
  have hinj : Function.Injective fun ids : List Int => (.arr (ids.map intData) : Data (Number φ)) :=
    fun a b h => List.map_injective_iff.mpr intData_injective (Data.arr.inj h)
  rw [TokenizerParts.probeData, TokenizerParts.probeData, sortKeys_map hints, sortKeys_map hints,
    Data.arr.injEq, List.map_inj_right fun {a b} h => hinj h]
  exact mapM_eq_iff hp.probe hq.probe

theorem vocabData_iff (hp : p.ReadFrom corpus t) (hq : q.ReadFrom corpus u) :
    (sortKeys p.vocabData = sortKeys q.vocabData ↔ p.vocab = q.vocab) ∧
      (p.vocab = q.vocab ↔ ∀ token, t.tokenId token = u.tokenId token) := by
  have hplain : ∀ e : String × Int, sortKeys (.arr [.str e.1, intData e.2] : Data (Number φ)) =
      .arr [.str e.1, intData e.2] := fun e => by
    simp only [sortKeys, sortItems, intData]
  have hinj : Function.Injective fun e : String × Int =>
      (.arr [.str e.1, intData e.2] : Data (Number φ)) := fun e f h => by
    simp only [Data.arr.injEq, List.cons.injEq, Data.str.injEq, and_true] at h
    exact Prod.ext h.1 (intData_injective h.2)
  constructor
  · rw [TokenizerParts.vocabData, TokenizerParts.vocabData, sortKeys_map hplain,
      sortKeys_map hplain, Data.arr.injEq, List.map_inj_right fun {a b} h => hinj h]
  · obtain ⟨d, hd, hpv⟩ := hp.vocab
    obtain ⟨e, he, hqv⟩ := hq.vocab
    unfold FastTokenizer.tokenId
    rw [hpv, hqv, hd, he]
    exact sorted_entries_iff

theorem addedData_iff (hp : p.ReadFrom corpus t) (hq : q.ReadFrom corpus u) :
    sortKeys p.addedData = sortKeys q.addedData ↔
      ∀ id, t.addedTokensDecoder.get? id = u.addedTokensDecoder.get? id := by
  have hplain : ∀ e : Int × AddedToken, sortKeys (e.2.row e.1 : Data (Number φ)) = e.2.row e.1 :=
    fun e => by simp only [AddedToken.row, sortKeys, sortItems, intData]
  have hinj : Function.Injective fun e : Int × AddedToken => (e.2.row e.1 : Data (Number φ)) := by
    rintro ⟨i, a⟩ ⟨j, b⟩ h
    cases a
    cases b
    simp only [AddedToken.row, intData, Data.arr.injEq, List.cons.injEq, Data.num.injEq,
      Sum.inl.injEq, Data.str.injEq, Data.bool.injEq, and_true] at h
    simp only [Prod.mk.injEq, AddedToken.mk.injEq]
    exact h
  rw [TokenizerParts.addedData, TokenizerParts.addedData, hp.addedTokens, hq.addedTokens,
    addedTokenTable, addedTokenTable, sortKeys_map hplain, sortKeys_map hplain, Data.arr.injEq,
    List.map_inj_right fun {a b} h => hinj h]
  exact sorted_entries_iff

theorem backendData_keysOnce (hp : p.ReadFrom corpus t) : KeysOnce p.backendData := by
  refine ⟨?_, normalizedModel_keysOnce hp.model hp.modelOnce, hp.chainOnce, trivial⟩
  simp only [List.map_cons, List.map_nil]
  decide

theorem backendData_iff (hp : p.ReadFrom corpus t) (hq : q.ReadFrom corpus u) :
    Alike p.backendData q.backendData ↔ SameModel t.modelFields u.modelFields ∧
      ∀ key ∈ chainKeys, Alike (getData t.data key) (getData u.data key) := by
  have hmodel := normalizedModel_alike hp.model hq.model hp.modelOnce hq.modelOnce
  have hchain : Alike (.arr p.chain) (.arr q.chain) ↔
      ∀ key ∈ chainKeys, Alike (getData t.data key) (getData u.data key) := by
    rw [hp.chain, hq.chain, Alike, alikeItems_map]
  rw [← hmodel, ← hchain]
  unfold TokenizerParts.backendData
  rw [alike_obj_cons (by simp) (by simp), alike_obj_cons (by simp) (by simp)]
  exact and_congr_right fun _ => and_iff_left alike_obj_nil

theorem encodingData_iff (hp : p.ReadFrom corpus t) (hq : q.ReadFrom corpus u) :
    Alike p.encodingData q.encodingData ↔ t.splitSpecialTokens = u.splitSpecialTokens := by
  rw [← hp.splitSpecialTokens, ← hq.splitSpecialTokens]
  unfold TokenizerParts.encodingData
  rw [alike_obj_cons (by simp) (by simp)]
  exact and_iff_left alike_obj_nil

end Parts

/-! ## 6. The fingerprint separates -/

section Separation

variable (sha256 : ByteArray → String) (repr : φ → List Char) (corpus : List String)

/-- No two of the texts have one digest. -/
def CollisionFree (texts : List ByteArray) : Prop :=
  ∀ a ∈ texts, ∀ b ∈ texts, sha256 a = sha256 b → a = b

/-- The texts that are hashed for a fingerprint: its components, and the object of them. -/
def hashedTexts (t : FastTokenizer φ) : List ByteArray :=
  match tokenizerParts corpus t with
  | .error _ => []
  | .ok p => [p.probeData, p.vocabData, p.addedData, p.backendData, p.encodingData,
      identityData sha256 repr corpus (fingerprintComponents sha256 repr p)].map
        (canonicalBytes repr)

variable {sha256 repr corpus}

theorem canonicalBytes_iff (hrepr : FloatRepr repr) {v w : Data (Number φ)} :
    canonicalBytes repr v = canonicalBytes repr w ↔ sortKeys v = sortKeys w := by
  unfold canonicalBytes
  rw [String.toUTF8_eq_toByteArray, String.toUTF8_eq_toByteArray, String.toByteArray_inj,
    String.ofList_inj, canonical_eq (numText_literals hrepr)]

/-- Digests of texts that do not collide. -/
theorem sha256Of_iff (hrepr : FloatRepr repr) {texts : List ByteArray}
    (hsha : CollisionFree sha256 texts) {v w : Data (Number φ)} (hv : canonicalBytes repr v ∈ texts)
    (hw : canonicalBytes repr w ∈ texts) :
    sha256Of sha256 repr v = sha256Of sha256 repr w ↔ sortKeys v = sortKeys w := by
  rw [← canonicalBytes_iff hrepr]
  exact ⟨hsha _ hv _ hw, congrArg sha256⟩

theorem identityData_keysOnce (c : FingerprintComponents) :
    KeysOnce (identityData sha256 repr corpus c) := by
  refine ⟨?_, trivial, trivial, trivial, trivial, trivial, trivial, trivial, trivial, trivial⟩
  simp only [List.map_cons, List.map_nil]
  decide

/-- The identity is that of the digests and of the size of the vocabulary. -/
theorem identityData_iff {c d : FingerprintComponents} :
    sortKeys (identityData sha256 repr corpus c) = sortKeys (identityData sha256 repr corpus d) ↔
      c.probe = d.probe ∧ c.vocab = d.vocab ∧ c.vocabSize = d.vocabSize ∧
        c.addedTokens = d.addedTokens ∧ c.backend = d.backend ∧ c.encoding = d.encoding := by
  have hint : ∀ m n : Nat, Alike (intData m : Data (Number φ)) (intData n) ↔ m = n := fun m n => by
    simp only [intData, Alike, Sum.inl.injEq, Int.natCast_inj]
  have hstr : ∀ x y : String, Alike (.str x : Data (Number φ)) (.str y) ↔ x = y := fun x y => by
    rw [Alike]
  rw [sortKeys_eq_iff (identityData_keysOnce c) (identityData_keysOnce d)]
  unfold identityData
  rw [alike_obj_cons (by simp) (by simp), alike_obj_cons (by simp) (by simp),
    alike_obj_cons (by simp) (by simp), alike_obj_cons (by simp) (by simp),
    alike_obj_cons (by simp) (by simp), alike_obj_cons (by simp) (by simp),
    alike_obj_cons (by simp) (by simp), alike_obj_cons (by simp) (by simp), hint]
  simp only [hstr, alike_obj_nil, true_and, and_true]

variable {t u : FastTokenizer φ} {p q : TokenizerParts φ}

theorem fingerprint_parts {payload : FingerprintPayload}
    (h : tokenizerFingerprint sha256 repr corpus t = .ok payload) :
    ∃ p, tokenizerParts corpus t = .ok p ∧ payload.fingerprint =
      sha256Of sha256 repr (identityData sha256 repr corpus (fingerprintComponents sha256 repr p)) := by
  obtain ⟨p, hp, h⟩ := bind_ok h
  cases h
  exact ⟨p, hp, rfl⟩

/-- Equal digests of the parts are those of one tokenizer. -/
theorem components_iff (hrepr : FloatRepr repr) (ht : tokenizerParts corpus t = .ok p)
    (hu : tokenizerParts corpus u = .ok q)
    (hsha : CollisionFree sha256
      (hashedTexts sha256 repr corpus t ++ hashedTexts sha256 repr corpus u)) :
    sha256Of sha256 repr (identityData sha256 repr corpus (fingerprintComponents sha256 repr p)) =
        sha256Of sha256 repr (identityData sha256 repr corpus (fingerprintComponents sha256 repr q)) ↔
      SameTokenizer corpus t u := by
  have hp := tokenizerParts_readFrom ht
  have hq := tokenizerParts_readFrom hu
  have htexts : hashedTexts sha256 repr corpus t ++ hashedTexts sha256 repr corpus u =
      [p.probeData, p.vocabData, p.addedData, p.backendData, p.encodingData,
        identityData sha256 repr corpus (fingerprintComponents sha256 repr p)].map
          (canonicalBytes repr) ++
      [q.probeData, q.vocabData, q.addedData, q.backendData, q.encodingData,
        identityData sha256 repr corpus (fingerprintComponents sha256 repr q)].map
          (canonicalBytes repr) := by
    unfold hashedTexts
    rw [ht, hu]
  rw [htexts] at hsha
  -- each digest stands for what was hashed
  have hprobe := (sha256Of_iff hrepr hsha (v := p.probeData) (w := q.probeData) (by simp)
    (by simp)).trans (probeData_iff hp hq)
  obtain ⟨hvocabkeys, hvocabmaps⟩ := vocabData_iff hp hq
  have hvocab := (sha256Of_iff hrepr hsha (v := p.vocabData) (w := q.vocabData) (by simp)
    (by simp)).trans hvocabkeys
  have hadded := (sha256Of_iff hrepr hsha (v := p.addedData) (w := q.addedData) (by simp)
    (by simp)).trans (addedData_iff hp hq)
  have hbackend := ((sha256Of_iff hrepr hsha (v := p.backendData) (w := q.backendData) (by simp)
    (by simp)).trans (sortKeys_eq_iff (backendData_keysOnce hp) (backendData_keysOnce hq))).trans
      (backendData_iff hp hq)
  have hencoding := ((sha256Of_iff hrepr hsha (v := p.encodingData) (w := q.encodingData) (by simp)
    (by simp)).trans (sortKeys_eq_iff ⟨List.nodup_singleton _, trivial, trivial⟩
      ⟨List.nodup_singleton _, trivial, trivial⟩)).trans (encodingData_iff hp hq)
  rw [sha256Of_iff hrepr hsha (by simp) (by simp), identityData_iff]
  unfold fingerprintComponents
  simp only [hprobe, hvocab, hadded, hbackend, hencoding]
  constructor
  · rintro ⟨hpr, hvo, -, had, ⟨hmo, hch⟩, hen⟩
    exact ⟨hpr, hvocabmaps.mp hvo, had, hmo, hch, hen⟩
  · intro h
    have hvo := hvocabmaps.mpr h.vocab
    exact ⟨h.probe, hvo, congrArg List.length hvo, h.addedTokens, ⟨h.model, h.chain⟩,
      h.splitSpecialTokens⟩

/-- **The fingerprint separates tokenizers**, and the order of the merges is among what it
    separates. -/
theorem fingerprint_separates (hrepr : FloatRepr repr) {f g : FingerprintPayload}
    (hf : tokenizerFingerprint sha256 repr corpus t = .ok f)
    (hg : tokenizerFingerprint sha256 repr corpus u = .ok g)
    (hsha : CollisionFree sha256
      (hashedTexts sha256 repr corpus t ++ hashedTexts sha256 repr corpus u)) :
    (f.fingerprint = g.fingerprint ↔ SameTokenizer corpus t u) ∧
      ∀ l m ps qs, Dict.find "merges" t.modelFields = some (.arr l) →
        Dict.find "merges" u.modelFields = some (.arr m) → List.Forall₂ SpellsPair l ps →
        List.Forall₂ SpellsPair m qs → ps ≠ qs → f.fingerprint ≠ g.fingerprint := by
  obtain ⟨p, hp, hfp⟩ := fingerprint_parts hf
  obtain ⟨q, hq, hgq⟩ := fingerprint_parts hg
  have hiff : f.fingerprint = g.fingerprint ↔ SameTokenizer corpus t u := by
    rw [hfp, hgq]
    exact components_iff hrepr hp hq hsha
  refine ⟨hiff, fun l m ps qs hl hm hps hqs hne heq => hne ?_⟩
  have hmerges := (hiff.mp heq).model.merges
  rw [hl, hm] at hmerges
  obtain ⟨pairs, hlp, hmp⟩ := hmerges
  have hread : ∀ {l : List (Data (Number φ))} {ps}, List.Forall₂ SpellsPair l ps →
      l.mapM mergePair = .ok ps := fun h => mapM_ok_iff.mpr (h.imp fun _ _ => mergePair_ok.mpr)
  have hleft : ps = pairs := Except.ok.inj ((hread hps).symm.trans (hread hlp))
  have hright : qs = pairs := Except.ok.inj ((hread hqs).symm.trans (hread hmp))
  exact hleft.trans hright.symm

/-! ## 7. The template pin -/

theorem strings_alike {l m : List String} :
    Alike (.arr (l.map .str) : Data (Number φ)) (.arr (m.map .str)) ↔ l = m := by
  have honce : ∀ l : List String, KeysOnce (.arr (l.map .str) : Data (Number φ)) := fun l =>
    keysOnceItems_forall.mpr fun v hv => by
      obtain ⟨s, -, rfl⟩ := List.mem_map.mp hv
      trivial
  have hinj : Function.Injective (Data.str : String → Data (Number φ)) := fun a b h =>
    Data.str.inj h
  have hplain : ∀ s : String, sortKeys (.str s : Data (Number φ)) = .str s := fun s => by
    rw [sortKeys] <;> exact fun _ h => by cases h
  rw [← sortKeys_eq_iff (honce l) (honce m), sortKeys_map hplain, sortKeys_map hplain,
    Data.arr.injEq, List.map_inj_right fun {a b} h => hinj h]

/-- An optional field of the markers. -/
theorem rel_strings {l m : List String} : Option.Rel Alike
    (if l = [] then none else some (.arr (l.map .str) : Data (Number φ)))
    (if m = [] then none else some (.arr (m.map .str))) ↔ l = m := by
  constructor
  · intro h
    split at h <;> split at h
    · next hl hm => rw [hl, hm]
    · cases h
    · cases h
    · cases h with
      | some h => exact strings_alike.mp h
  · rintro rfl
    split
    · exact .none
    · exact .some (strings_alike.mpr rfl)

theorem templateMarkers_keysOnce (a b c : String) (l m : List String) :
    KeysOnce (.obj (templateMarkers a b c l m) : Data (Number φ)) := by
  refine ⟨?_, ?_⟩
  · unfold templateMarkers
    split <;> split <;> simp only [List.map_append, List.map_cons, List.map_nil] <;> decide
  · rw [keysOnceFields_forall]
    intro e he
    unfold templateMarkers at he
    have hstrings : ∀ l : List String, KeysOnce (.arr (l.map .str) : Data (Number φ)) := fun l =>
      keysOnceItems_forall.mpr fun v hv => by
        obtain ⟨s, -, rfl⟩ := List.mem_map.mp hv
        trivial
    simp only [List.mem_append, List.mem_cons, List.not_mem_nil, or_false] at he
    rcases he with ((rfl | rfl | rfl) | he) | he
    · trivial
    · trivial
    · trivial
    · split at he
      · cases he
      · rw [List.mem_singleton.mp he]
        exact hstrings l
    · split at he
      · cases he
      · rw [List.mem_singleton.mp he]
        exact hstrings m

/-- What stands under each key. -/
theorem find_templateMarkers (a b c : String) (l m : List String) :
    Dict.find "template_sha256" (templateMarkers a b c l m : List (String × Data (Number φ))) =
        some (.str a) ∧
      Dict.find "generation_prompt" (templateMarkers a b c l m) = some (.str b : Data (Number φ)) ∧
      Dict.find "assistant_turn_end" (templateMarkers a b c l m) = some (.str c : Data (Number φ)) ∧
      Dict.find "continuation_headers" (templateMarkers a b c l m) =
        (if l = [] then none else some (.arr (l.map .str) : Data (Number φ))) ∧
      Dict.find "assistant_turn_endings" (templateMarkers a b c l m) =
        (if m = [] then none else some (.arr (m.map .str) : Data (Number φ))) := by
  unfold templateMarkers
  split <;> split <;> simp [Dict.find]

/-- **A pin stands for all it covers.** -/
theorem templateMarkers_iff {a b c a' b' c' : String} {l m l' m' : List String} :
    sortKeys (.obj (templateMarkers a b c l m) : Data (Number φ)) =
        sortKeys (.obj (templateMarkers a' b' c' l' m')) ↔
      a = a' ∧ b = b' ∧ c = c' ∧ l = l' ∧ m = m' := by
  have honce := @templateMarkers_keysOnce φ a b c l m
  have honce' := @templateMarkers_keysOnce φ a' b' c' l' m'
  obtain ⟨ha, hb, hc, hl, hm⟩ := @find_templateMarkers φ a b c l m
  obtain ⟨ha', hb', hc', hl', hm'⟩ := @find_templateMarkers φ a' b' c' l' m'
  have hstr : ∀ {x y : String},
      Option.Rel Alike (some (.str x : Data (Number φ))) (some (.str y)) → x = y := fun h => by
    cases h with
    | some h => exact h
  rw [sortKeys_eq_iff honce honce']
  constructor
  · intro h
    rw [alike_obj_iff honce.1 honce'.1] at h
    have h₁ := h "template_sha256"
    have h₂ := h "generation_prompt"
    have h₃ := h "assistant_turn_end"
    have h₄ := h "continuation_headers"
    have h₅ := h "assistant_turn_endings"
    rw [ha, ha'] at h₁
    rw [hb, hb'] at h₂
    rw [hc, hc'] at h₃
    rw [hl, hl', rel_strings] at h₄
    rw [hm, hm', rel_strings] at h₅
    exact ⟨hstr h₁, hstr h₂, hstr h₃, h₄, h₅⟩
  · rintro ⟨rfl, rfl, rfl, rfl, rfl⟩
    exact (sortKeys_eq_iff honce honce).mp rfl

end Separation

end Model

/-! ## 8. Two spellings of one tokenizer -/

/-- The finite doubles. -/
abbrev Double := { q : Rat // nearestDouble q = .finite q }

theorem exactRepr_floatRepr : FloatRepr fun x : Double => exactRepr x.1 where
  injective x y h := by
    have hx := (exactRepr_reads x.1 x.2).1
    rw [show exactRepr x.1 = exactRepr y.1 from h, (exactRepr_reads y.1 y.2).1] at hx
    simp only [Option.some.injEq, Json.float.injEq, PyFloat.finite.injEq] at hx
    exact Subtype.ext hx.symm
  chars x := (exactRepr_reads x.1 x.2).2
  notInt x := ⟨'e', List.mem_append_right _ List.mem_cons_self, by decide, by decide⟩

/-- A digest that keeps the text. -/
def plainDigest (bytes : ByteArray) : String :=
  String.ofList ('#' :: bytes.data.toList.map fun b => Char.ofNat b.toNat)

theorem plainDigest_injective : Function.Injective plainDigest := by
  have hbyte : Function.Injective fun b : UInt8 => Char.ofNat b.toNat := fun a b h => by
    have hvalid : ∀ c : UInt8, (Char.ofNat c.toNat).toNat = c.toNat := fun c => by
      rw [Char.ofNat, dif_pos (.inl (c.toNat_lt.trans (by decide)))]
      rfl
    have hnat : a.toNat = b.toNat := by
      rw [← hvalid a, ← hvalid b, show Char.ofNat a.toNat = Char.ofNat b.toNat from h]
    exact UInt8.toNat_inj.mp hnat
  intro a b h
  have hlist := List.map_injective_iff.mpr hbyte (List.cons.inj (String.ofList_injective h)).2
  exact ByteArray.ext (Array.toList_inj.mp hlist)

def spelledJoined : FastTokenizer Double where
  backend := some (.obj [
    ("model", .obj [("type", .str "BPE"), ("merges", .arr [.str "a b", pairData ("b", "c d")])]),
    ("normalizer", .obj [("type", .str "Prepend"), ("n", intData 1)])])
  keysOnce := fun d h => by
    cases h
    simp [KeysOnce, KeysOnceItems, KeysOnceFields, pairData, intData]
  encode := fun text => .ok (text.toList.map fun c => c.toNat)
  getVocab := some ⟨[("a", 1), ("b", 2)], by decide⟩
  addedTokensDecoder := ⟨[(7, ⟨"<|end|>", true, false, false, false, false⟩),
    (3, ⟨"<think>", false, false, true, false, true⟩)], by decide⟩
  splitSpecialTokens := false
  chatTemplate := .str "{{ messages }}"
  templateOnce := trivial

def spelledPaired : FastTokenizer Double where
  backend := some (.obj [
    ("normalizer", .obj [("n", intData 1), ("type", .str "Prepend")]), ("decoder", .null),
    ("model", .obj [("merges", .arr [pairData ("a", "b"), pairData ("b", "c d")]),
      ("type", .str "BPE")])])
  keysOnce := fun d h => by
    cases h
    simp [KeysOnce, KeysOnceItems, KeysOnceFields, pairData, intData]
  encode := fun text => .ok (text.toList.map fun c => c.toNat)
  getVocab := some ⟨[("b", 2), ("a", 1)], by decide⟩
  addedTokensDecoder := ⟨[(3, ⟨"<think>", false, false, true, false, true⟩),
    (7, ⟨"<|end|>", true, false, false, false, false⟩)], by decide⟩
  splitSpecialTokens := false
  chatTemplate := .str "{{ messages }}"
  templateOnce := trivial

theorem spelled_same (corpus : List String) : SameTokenizer corpus spelledJoined spelledPaired where
  probe := fun _ _ => rfl
  vocab := sorted_entries_iff.mp rfl
  addedTokens := sorted_entries_iff.mp rfl
  model := {
    others := fun key hkey => by
      by_cases htype : key = "type"
      · subst htype
        exact .some rfl
      · have hleft : Dict.find key spelledJoined.modelFields = none :=
          (Dict.find_eq_none_iff _ _).mpr fun hm => by
            rcases List.mem_cons.mp hm with h | h
            · exact htype h
            · exact hkey (List.mem_singleton.mp h)
        have hright : Dict.find key spelledPaired.modelFields = none :=
          (Dict.find_eq_none_iff _ _).mpr fun hm => by
            rcases List.mem_cons.mp hm with h | h
            · exact hkey h
            · exact htype (List.mem_singleton.mp h)
        rw [hleft, hright]
        exact .none
    merges := ⟨[("a", "b"), ("b", "c d")],
      .cons (.inr ⟨by decide, by decide, rfl⟩) (.cons (.inl rfl) .nil),
      .cons (.inl rfl) (.cons (.inl rfl) .nil)⟩ }
  chain := fun key hkey => by
    have hnormalizer : Alike (getData spelledJoined.data "normalizer")
        (getData spelledPaired.data "normalizer") :=
      ⟨rfl, ⟨_, List.mem_cons_of_mem _ List.mem_cons_self, rfl⟩, ⟨_, List.mem_cons_self, rfl⟩,
        trivial⟩
    rcases List.mem_cons.mp hkey with rfl | hkey
    · exact hnormalizer
    · rcases List.mem_cons.mp hkey with rfl | hkey
      · exact trivial
      · rcases List.mem_cons.mp hkey with rfl | hkey
        · exact trivial
        · rw [List.mem_singleton.mp hkey]
          exact trivial
  splitSpecialTokens := rfl

theorem fingerprint_separates_spelled :
    ∃ f g, tokenizerFingerprint plainDigest (fun x : Double => exactRepr x.1) ["ab", "é"]
        spelledJoined = .ok f ∧
      tokenizerFingerprint plainDigest (fun x : Double => exactRepr x.1) ["ab", "é"]
        spelledPaired = .ok g ∧ f.fingerprint = g.fingerprint := by
  obtain ⟨f, hf⟩ : ∃ f, tokenizerFingerprint plainDigest (fun x : Double => exactRepr x.1)
    ["ab", "é"] spelledJoined = .ok f := ⟨_, rfl⟩
  obtain ⟨g, hg⟩ : ∃ g, tokenizerFingerprint plainDigest (fun x : Double => exactRepr x.1)
    ["ab", "é"] spelledPaired = .ok g := ⟨_, rfl⟩
  exact ⟨f, g, hf, hg, (fingerprint_separates exactRepr_floatRepr hf hg
    fun _ _ _ _ h => plainDigest_injective h).1.mpr (spelled_same _)⟩

end RolloutProxy
