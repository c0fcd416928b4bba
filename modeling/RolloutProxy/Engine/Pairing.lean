/-
  File:      RolloutProxy/Engine/Pairing.lean
  Subject:   THE PAIRS A BODY HOLDS, read by field paths alone, and that each dialect reads them.

  * `pairAt d body i` is the token and logprob a body of dialect `d` associates at position `i`:
    the `i`th triple of `output_token_logprobs` (and the `i`th of `output_ids`, where it has any),
    the `i`th of `token_ids` with the `i`th of `logprobs.content`, the `i`th of `tokens` with the
    `i`th of `token_logprobs`.
  * **`read_pairs`**: what a dialect returns is empty, or at every position the pair of the body.
  * A body that reports an abort is read as one (`read_reportsAbort`).
-/
import RolloutProxy.Engine.Dialects

namespace RolloutProxy

/-! ## 1. The pairs of a body -/

/-- The value under a key of an object. -/
def Json.field (value : Json) (key : String) : Json :=
  match value with
  | .obj fields => Fields.get fields key
  | _ => .null

/-- The `i`th item of an array. -/
def Json.item (value : Json) (i : Nat) : Option Json :=
  match value with
  | .arr items => items[i]?
  | _ => none

/-- The finite double a number stands for. -/
def Json.asFloat : Json → Option PyFloat
  | .int n => floatOfInt n
  | .float x => if x.isFinite then some x else none
  | _ => none

/-- The pair of a `[logprob, token_id, …]` triple. -/
def triplePair : Json → Option (Int × PyFloat)
  | .arr (lp :: .int n :: _) => lp.asFloat.map (n, ·)
  | _ => none

/-- The id a `"token_id:<id>"` text names. -/
def tokenOfText : Json → Option Int
  | .str s => if "token_id:".toList.isPrefixOf s.toList then some (digitsValue (s.toList.drop 9))
      else none
  | _ => none

/-- The token at position `i` of `output_ids`, where that field holds any. -/
def outputIdAt (body : Json) (i : Nat) : Option (Option Int) :=
  match body.field "output_ids" with
  | .arr (id :: ids) => some ((id :: ids)[i]?.bind Json.asInt)
  | _ => none

/-- The first choice of a vLLM body. -/
def firstChoice (body : Json) : Json := ((body.field "choices").item 0).getD .null

/-- The token and logprob a body associates at position `i`. -/
def pairAt (d : Dialect) (body : Json) (i : Nat) : Option (Int × PyFloat) :=
  match d with
  | .sglang => do
    let p ← (((body.field "meta_info").field "output_token_logprobs").item i).bind triplePair
    if (outputIdAt body i).getD (some p.1) = some p.1 then some p else none
  | .vllm => do
    let choice := firstChoice body
    let token ← ((choice.field "token_ids").item i).bind Json.asInt
    let lp ← (((choice.field "logprobs").field "content").item i).bind fun e =>
      (e.field "logprob").asFloat
    some (token, lp)
  | .completions => do
    let logprobs := (firstChoice body).field "logprobs"
    let token ← ((logprobs.field "tokens").item i).bind tokenOfText
    let lp ← ((logprobs.field "token_logprobs").item i).bind Json.asFloat
    some (token, lp)

/-- What a body names as the end of its generation. -/
def stopReasonAt (d : Dialect) (body : Json) : Json :=
  match d with
  | .sglang => ((body.field "meta_info").field "finish_reason").field "type"
  | .vllm =>
    match (firstChoice body).field "finish_reason" with
    | .obj reason => Fields.get reason "type"
    | reason => reason
  | .completions => (firstChoice body).field "finish_reason"

/-- The body says that the engine aborted; vLLM's own endpoint also calls that `cancelled`. -/
def ReportsAbort (d : Dialect) (body : Json) : Prop :=
  stopReasonAt d body = .str "abort" ∨ d = .vllm ∧ stopReasonAt d body = .str "cancelled"

/-! ## 2. Loops over the raw pairs -/

theorem finiteLogprob_ok {sid : String} {v : Json} {x : PyFloat}
    (h : finiteLogprob sid v = .ok x) : v.asFloat = some x := by
  unfold finiteLogprob at h
  split at h
  · split at h
    · next hf =>
      cases h
      exact hf
    · cases h
  · split at h
    · next hf =>
      cases h
      simp only [Json.asFloat, hf, if_true]
    · cases h
  · cases h

theorem finiteLogprob_isFinite {sid : String} {v : Json} {x : PyFloat}
    (h : finiteLogprob sid v = .ok x) : x.isFinite = true := by
  unfold finiteLogprob at h
  split at h
  · split at h
    · next hf =>
      cases h
      exact floatOfInt_isFinite hf
    · cases h
  · split at h
    · next hf =>
      cases h
      exact hf
    · cases h
  · cases h

theorem sglangEntry_ok {sid : String} {i : Nat} {entry : Json} {p : Int × PyFloat}
    (h : sglangEntry sid true i entry = .ok p) : triplePair entry = some p := by
  unfold sglangEntry at h
  simp only at h
  split at h
  · next lp n rest =>
    split at h
    · cases h
    · simp only [if_true] at h
      split at h
      all_goals first
        | (obtain ⟨x, hx, rfl⟩ := map_ok h
           simp only [triplePair, finiteLogprob_ok hx, Option.map_some])
        | cases h
  · cases h

theorem sglangEntries_ok {sid : String} : ∀ {l : List Json} {i : Nat} {ps : List (Int × PyFloat)},
    sglangEntries sid true i l = .ok ps → ∀ j : Nat, ps[j]? = l[j]?.bind triplePair
  | [], i, ps, h => by
      cases h
      intro j
      rfl
  | e :: l, i, ps, h => by
      obtain ⟨p, hp, h⟩ := bind_ok h
      obtain ⟨ps', hps, h⟩ := bind_ok h
      cases h
      intro j
      cases j with
      | zero => simpa using (sglangEntry_ok hp).symm
      | succ j => simpa using sglangEntries_ok hps j

theorem vllmLogprob_ok {sid : String} {token : Int} {entry : Json} {x : PyFloat}
    (h : vllmLogprob sid token entry = .ok x) : (entry.field "logprob").asFloat = some x := by
  unfold vllmLogprob at h
  split at h
  · split at h
    all_goals first
      | (split at h
         · exact finiteLogprob_ok h
         · cases h)
      | cases h
  · cases h

theorem vllmLogprobs_ok {sid : String} : ∀ {ids : List Int} {l : List Json} {lps : List PyFloat},
    ids.length = l.length → vllmLogprobs sid ids l = .ok lps →
    lps.length = ids.length ∧
      ∀ j : Nat, lps[j]? = l[j]?.bind fun e => (Json.field e "logprob").asFloat
  | [], [], lps, _, h => by
      cases h
      exact ⟨rfl, fun j => rfl⟩
  | [], _ :: _, _, hl, _ => by simp at hl
  | _ :: _, [], _, hl, _ => by simp at hl
  | n :: ids, e :: l, lps, hl, h => by
      obtain ⟨x, hx, h⟩ := bind_ok h
      obtain ⟨xs, hxs, h⟩ := bind_ok h
      cases h
      obtain ⟨hlen, hj⟩ := vllmLogprobs_ok (by simpa using hl) hxs
      refine ⟨by simp [hlen], fun j => ?_⟩
      cases j with
      | zero => simpa using (vllmLogprob_ok hx).symm
      | succ j => simpa using hj j

theorem completionsTokenId_ok {s : String} {id : Except PyError Int} {n : Int}
    (h : completionsTokenId s = some id) (hn : id = .ok n) : tokenOfText (.str s) = some n := by
  unfold completionsTokenId at h
  simp only at h
  split at h
  · next hs =>
    cases h
    split at hn
    · cases hn
      simp only [tokenOfText, hs.1, if_true]
    · cases hn
  · cases h

theorem completionsPair_ok {sid : String} {i : Nat} {token lp : Json} {p : Int × PyFloat}
    (h : completionsPair sid i token lp = .ok p) :
    tokenOfText token = some p.1 ∧ lp.asFloat = some p.2 := by
  unfold completionsPair at h
  simp only at h
  split at h
  all_goals first
    | (split at h
       · next id hid =>
         obtain ⟨n, hn, h⟩ := bind_ok h
         obtain ⟨x, hx, h⟩ := bind_ok h
         cases h
         exact ⟨completionsTokenId_ok hid hn, finiteLogprob_ok hx⟩
       · cases h)
    | cases h

theorem completionsPairs_ok {sid : String} : ∀ {i : Nat} {ts ls : List Json}
    {ps : List (Int × PyFloat)}, ts.length = ls.length → completionsPairs sid i ts ls = .ok ps →
    ∀ j : Nat, ps[j]? = (ts[j]?.bind tokenOfText).bind fun n =>
      (ls[j]?.bind Json.asFloat).map fun x => (n, x)
  | _, [], [], ps, _, h => by
      cases h
      intro j
      rfl
  | _, [], _ :: _, _, hl, _ => by simp at hl
  | _, _ :: _, [], _, hl, _ => by simp at hl
  | i, t :: ts, l :: ls, ps, hl, h => by
      obtain ⟨p, hp, h⟩ := bind_ok h
      obtain ⟨ps', hps, h⟩ := bind_ok h
      cases h
      obtain ⟨ht, hx⟩ := completionsPair_ok hp
      intro j
      cases j with
      | zero => simp [ht, hx]
      | succ j => simpa using completionsPairs_ok (by simpa using hl) hps j

/-! ## 3. What a dialect returns -/

/-- The ids and logprobs of a result are the pairs of the body, or there are none. -/
def ReadsPairs (d : Dialect) (body : Json) (ids : List Int) (lps : List PyFloat) : Prop :=
  ids = [] ∨ (lps.length = ids.length ∧ ∀ i, (ids.zip lps)[i]? = pairAt d body i)

theorem zip_map_fst_snd {α β : Type} : ∀ l : List (α × β), (l.map Prod.fst).zip (l.map Prod.snd) = l
  | [] => rfl
  | (a, b) :: l => by simp only [List.map_cons, List.zip_cons_cons, zip_map_fst_snd l]

theorem dictOf_ok {v : Json} {fields : Fields} (h : dictOf v = .ok fields) : v = .obj fields := by
  cases v with
  | obj f => cases h; rfl
  | null | bool | int | float | str | arr => cases h

/-- Checked ids are ints, position by position. -/
theorem intsOf_getElem? : ∀ {l : List Json}, l.all isTokenId = true → ∀ j : Nat,
    (intsOf l)[j]? = l[j]?.bind Json.asInt
  | [], _, j => rfl
  | v :: l, h, j => by
      simp only [List.all_cons, Bool.and_eq_true] at h
      have ih := intsOf_getElem? h.2
      unfold intsOf at ih ⊢
      cases v with
      | int n =>
          cases j with
          | zero => rfl
          | succ j => simpa [Json.asInt] using ih j
      | null | bool | float | str | arr | obj => simp [isTokenId] at h

theorem intsOf_length : ∀ {l : List Json}, l.all isTokenId = true → (intsOf l).length = l.length
  | [], _ => rfl
  | v :: l, h => by
      simp only [List.all_cons, Bool.and_eq_true] at h
      have ih := intsOf_length h.2
      unfold intsOf at ih ⊢
      cases v with
      | int n => simp [Json.asInt, ih]
      | null | bool | float | str | arr | obj => simp [isTokenId] at h

/-- A field that holds anything is in the object. -/
theorem getD_eq_get {d : Fields} {key : String} {v default : Json} (h : d.getD key default = v)
    (hne : v ≠ default) : d.get key = v := by
  unfold Fields.getD at h
  split at h
  · exact h
  · exact absurd h.symm hne

theorem orElse_arr {v : Json} {e : Json} {l : List Json} (h : orElse v (.arr []) = .arr (e :: l)) :
    v = .arr (e :: l) := by
  unfold orElse at h
  split at h
  · exact h
  · cases h

/-- `output_ids`, where it has ids, agrees with the triples. -/
theorem outputIdAt_agrees {sid : String} {output : Fields} {outputIds : List Int} {entries : Json}
    {pairs : List (Int × PyFloat)} {q : Int × PyFloat} {i : Nat}
    (hids : sglangOutputIds sid output = .ok outputIds)
    (hsame : pairs.map Prod.fst = sglangIds outputIds entries pairs)
    (hq : pairs[i]? = some q) : (outputIdAt (.obj output) i).getD (some q.1) = some q.1 := by
  have hq' : (pairs.map Prod.fst)[i]? = some q.1 := by simp [hq]
  unfold sglangOutputIds at hids
  simp only [outputIdAt, Json.field]
  split at hids
  · next hn => rw [hn]; rfl
  · next ids hn =>
    rw [hn]
    split at hids
    · next hall =>
      cases hids
      cases ids with
      | nil => rfl
      | cons id ids =>
        have hne : (intsOf (id :: ids)).isEmpty = false := by
          have hlen := intsOf_length hall
          cases hi : intsOf (id :: ids) with
          | nil => rw [hi] at hlen; simp at hlen
          | cons => rfl
        unfold sglangIds at hsame
        rw [hne, Bool.false_and, if_neg Bool.false_ne_true] at hsame
        rw [hsame, intsOf_getElem? hall] at hq'
        exact hq'
    · cases hids
  · cases hids

/-- The triples that were read are those of the body. -/
theorem sglangPairs_read {sid : String} {output metaInfo : Fields} {outputIds : List Int}
    {pairs : List (Int × PyFloat)}
    (hmeta : Fields.getD output "meta_info" (.obj []) = .obj metaInfo)
    (hids : sglangOutputIds sid output = .ok outputIds)
    (hpairs : sglangPairs sid true outputIds
      (orElse (metaInfo.get "output_token_logprobs") (.arr [])) = .ok pairs)
    (hsame : pairs.map Prod.fst =
      sglangIds outputIds (orElse (metaInfo.get "output_token_logprobs") (.arr [])) pairs) :
    ReadsPairs .sglang (.obj output) (pairs.map Prod.fst) (pairs.map Prod.snd) := by
  unfold sglangPairs at hpairs
  rw [Bool.true_or, if_pos rfl] at hpairs
  split at hpairs
  · next l hl =>
    have hent := sglangEntries_ok hpairs
    cases l with
    | nil =>
        cases hpairs
        exact .inl rfl
    | cons e l =>
        refine .inr ⟨by simp, fun i => ?_⟩
        have hget := orElse_arr hl
        have hm : output.get "meta_info" = .obj metaInfo := by
          refine getD_eq_get hmeta fun e' => ?_
          cases e'
          cases hget
        have hitem : (((Json.obj output).field "meta_info").field "output_token_logprobs").item i =
            (e :: l)[i]? := by
          simp only [Json.field, hm, hget, Json.item]
        rw [zip_map_fst_snd]
        simp only [pairAt, hitem, ← hent]
        cases hpi : pairs[i]? with
        | none => rfl
        | some q =>
          have hagree := outputIdAt_agrees hids hsame hpi
          simp [hagree]
  · cases hpairs

theorem sglangRead_pairs {py : PyText} {call : EngineCall} {body : Json} {result : EngineResult}
    (hlp : call.returnLogprob = true) (h : sglangRead py call body = .ok result) :
    ∃ ids lps, result.tokenIds = .arr (ids.map .int) ∧ result.logProbs = .arr (lps.map .float) ∧
      ReadsPairs .sglang body ids lps := by
  unfold sglangRead at h
  obtain ⟨output, hout, h⟩ := bind_ok h
  obtain ⟨metaInfo, hmeta, h⟩ := bind_ok h
  obtain ⟨stopReason, _, h⟩ := bind_ok h
  obtain ⟨outputIds, hids, h⟩ := bind_ok h
  obtain ⟨pairs, hpairs, h⟩ := bind_ok h
  rw [dictOf_ok hout]
  rw [hlp] at hpairs
  simp only [hlp, Bool.true_and, if_true] at h
  by_cases hsame : pairs.map Prod.fst =
      sglangIds outputIds (orElse (metaInfo.get "output_token_logprobs") (.arr [])) pairs
  · have hread := sglangPairs_read (dictOf_ok hmeta) hids hpairs hsame
    rw [← hsame, bne_self_eq_false, if_neg Bool.false_ne_true] at h
    cases hc : call.capture with
    | false =>
        rw [hc, if_neg Bool.false_ne_true] at h
        cases h
        exact ⟨_, _, rfl, rfl, hread⟩
    | true =>
        rw [hc, if_pos rfl] at h
        obtain ⟨blob, _, h⟩ := bind_ok h
        cases h
        exact ⟨_, _, rfl, rfl, hread⟩
  · rw [if_pos (bne_iff_ne.mpr hsame)] at h
    cases h
    exact ⟨[], [], rfl, rfl, .inl rfl⟩

/-! ## 4. The two vLLM dialects -/

theorem vllmChoice_ok {sid : String} {body : Json} {output choice : Fields}
    (h : vllmChoice sid body = .ok (output, choice)) : firstChoice body = .obj choice := by
  unfold vllmChoice at h
  split at h
  · next out =>
    split at h
    · next c hc =>
      cases h
      simp only [firstChoice, Json.field, hc, Json.item]
      rfl
    · cases h
  · cases h

theorem vllmTokenIds_ok {sid : String} {choice : Fields} {ids : List Int}
    (h : vllmTokenIds sid choice = .ok ids) (j : Nat) :
    ids[j]? = (((Json.obj choice).field "token_ids").item j).bind Json.asInt := by
  unfold vllmTokenIds at h
  simp only [Json.field]
  split at h
  · next l hl =>
    split at h
    · next hall =>
      cases h
      rw [hl, intsOf_getElem? hall]
      rfl
    · cases h
  · cases h

theorem vllmContent_ok {sid : String} {choice : Fields} {n : Nat} {entries : List Json}
    (h : vllmContent sid choice n = .ok entries) :
    entries.length = n ∧ ((Json.obj choice).field "logprobs").field "content" = .arr entries := by
  unfold vllmContent at h
  simp only at h
  split at h
  · next l hl =>
    split at h
    · next hn =>
      cases h
      refine ⟨hn, ?_⟩
      simp only [Json.field]
      cases hlp : choice.get "logprobs" with
      | obj f =>
          rw [hlp] at hl
          exact hl
      | null | bool | int | float | str | arr => rw [hlp] at hl; cases hl
    · cases h
  · cases h

/-- Two readings, as a pair. -/
theorem bind_map_pair {α β : Type} (x : Option α) (y : Option β) :
    (x.bind fun a => y.map fun b => (a, b)) = (do let a ← x; let b ← y; some (a, b)) := by
  cases x <;> cases y <;> rfl

/-- Positions of two lists of one length, side by side. -/
theorem zip_getElem? {α β : Type} (l : List α) (m : List β) (i : Nat) :
    (l.zip m)[i]? = (l[i]?).bind fun a => (m[i]?).map fun b => (a, b) := by
  rw [List.zip, List.getElem?_zipWith]
  cases l[i]? <;> cases m[i]? <;> rfl

theorem vllmRead_pairs {py : PyText} {npLoad : NpLoad} {call : EngineCall} {body : Json}
    {result : EngineResult} (h : vllmRead py npLoad call body = .ok result) :
    ∃ ids lps, result.tokenIds = .arr (ids.map .int) ∧ result.logProbs = .arr (lps.map .float) ∧
      ReadsPairs .vllm body ids lps := by
  unfold vllmRead at h
  obtain ⟨⟨output, choice⟩, hchoice, h⟩ := bind_ok h
  simp only at h
  split at h
  · cases h
    exact ⟨[], [], rfl, rfl, .inl rfl⟩
  · split at h
    · cases h
    obtain ⟨ids, hids, h⟩ := bind_ok h
    obtain ⟨engineMeta, _, h⟩ := bind_ok h
    obtain ⟨entries, hent, h⟩ := bind_ok h
    obtain ⟨lps, hlps, h⟩ := bind_ok h
    obtain ⟨_, _, h⟩ := bind_ok h
    obtain ⟨hlen, hcontent⟩ := vllmContent_ok hent
    obtain ⟨hl, hj⟩ := vllmLogprobs_ok hlen.symm hlps
    have hread : ReadsPairs .vllm body ids lps := by
      refine .inr ⟨hl, fun i => ?_⟩
      rw [zip_getElem?, vllmTokenIds_ok hids, hj]
      simp only [pairAt, vllmChoice_ok hchoice, hcontent]
      exact bind_map_pair _ _
    split at h
    · obtain ⟨blob, _, h⟩ := bind_ok h
      cases h
      exact ⟨_, _, rfl, rfl, hread⟩
    · cases h
      exact ⟨_, _, rfl, rfl, hread⟩

theorem subscript_ok {v w : Json} {key : String} (h : subscript v key = .ok w) :
    v.field key = w := by
  unfold subscript at h
  split at h
  · split at h
    · cases h; rfl
    · cases h
  · cases h
  · cases h
  · cases h

/-- Fields of a defaulted object: those of the value, where the list under the key has items. -/
theorem orElse_field {v : Json} {fields : Fields} {key : String} {e : Json} {l : List Json}
    (h : dictOf (orElse v (.obj [])) = .ok fields)
    (hl : orElse (fields.get key) (.arr []) = .arr (e :: l)) : v.field key = .arr (e :: l) := by
  have hv := dictOf_ok h
  have hk := orElse_arr hl
  unfold orElse at hv
  split at hv
  · rw [hv]
    exact hk
  · cases hv
    cases hk

/-- The first choice, as `choices[0]` reads it. -/
theorem firstChoice_ok {body choices first : Json} {choice : Fields}
    (hchoices : subscript body "choices" = .ok choices) (hfirst : firstOf choices = .ok first)
    (hchoice : dictOf first = .ok choice) : firstChoice body = .obj choice := by
  have hf := dictOf_ok hchoice
  unfold firstChoice
  rw [subscript_ok hchoices]
  unfold firstOf at hfirst
  split at hfirst
  · cases hfirst
    rw [hf]
    rfl
  · cases hfirst
  · split at hfirst
    · cases hfirst
      cases hf
    · cases hfirst
  · cases hfirst
  · cases hfirst

theorem completionsRead_pairs {call : EngineCall} {body : Json} {result : EngineResult}
    (h : completionsRead call body = .ok result) :
    ∃ ids lps, result.tokenIds = .arr (ids.map .int) ∧ result.logProbs = .arr (lps.map .float) ∧
      ReadsPairs .completions body ids lps := by
  unfold completionsRead at h
  obtain ⟨choices, hchoices, h⟩ := bind_ok h
  obtain ⟨first, hfirst, h⟩ := bind_ok h
  obtain ⟨choice, hchoice, h⟩ := bind_ok h
  obtain ⟨blob, hblob, h⟩ := bind_ok h
  obtain ⟨pairs, hpairs, h⟩ := bind_ok h
  cases h
  refine ⟨_, _, rfl, rfl, ?_⟩
  have hc := firstChoice_ok hchoices hfirst hchoice
  unfold completionsRaw at hpairs
  split at hpairs
  · next tokens lps ht hl =>
    split at hpairs
    · next hlen =>
      have hp := completionsPairs_ok hlen hpairs
      cases tokens with
      | nil =>
          cases lps with
          | nil =>
              cases hpairs
              exact .inl rfl
          | cons => simp at hlen
      | cons t ts =>
          cases lps with
          | nil => simp at hlen
          | cons x xs =>
              have htok := orElse_field hblob ht
              have hlps := orElse_field hblob hl
              refine .inr ⟨by simp, fun i => ?_⟩
              rw [zip_map_fst_snd, hp]
              have hlog : (firstChoice body).field "logprobs" = choice.get "logprobs" := by
                rw [hc]
                rfl
              simp only [pairAt, hlog, htok, hlps]
              exact bind_map_pair _ _
    · cases hpairs
  · cases hpairs

/-- **Every dialect reads the pairs of the body**, at every position, or no tokens at all. -/
theorem read_pairs {d : Dialect} {py : PyText} {npLoad : NpLoad} {call : EngineCall} {body : Json}
    {result : EngineResult} (hlp : call.returnLogprob = true)
    (h : d.read py npLoad call body = .ok result) :
    ∃ ids lps, result.tokenIds = .arr (ids.map .int) ∧ result.logProbs = .arr (lps.map .float) ∧
      ReadsPairs d body ids lps := by
  cases d with
  | sglang => exact sglangRead_pairs hlp h
  | vllm => exact vllmRead_pairs h
  | completions => exact completionsRead_pairs h

/-! ## 5. Aborted bodies -/

theorem get_of_not_has {d : Fields} {key : String} (h : ¬d.has key = true) :
    d.get key = .null := by
  induction d with
  | nil => rfl
  | cons e d ih =>
    obtain ⟨k, v⟩ := e
    simp only [Fields.has, List.any_cons, Bool.or_eq_true, decide_eq_true_eq, not_or] at h
    rw [Fields.get, if_neg h.1]
    exact ih h.2

theorem sglangRead_stopReason {py : PyText} {call : EngineCall} {body : Json}
    {result : EngineResult} (h : sglangRead py call body = .ok result) :
    result.stopReason = stopReasonAt .sglang body := by
  unfold sglangRead at h
  obtain ⟨output, hout, h⟩ := bind_ok h
  obtain ⟨metaInfo, hmeta, h⟩ := bind_ok h
  obtain ⟨stopReason, hstop, h⟩ := bind_ok h
  obtain ⟨outputIds, _, h⟩ := bind_ok h
  obtain ⟨pairs, _, h⟩ := bind_ok h
  have hresult : result.stopReason = stopReason := by
    simp only at h
    split at h
    · cases h
      rfl
    · split at h
      · obtain ⟨blob, _, h⟩ := bind_ok h
        cases h
        rfl
      · cases h
        rfl
  have hbody : (body.field "meta_info").field "finish_reason" = metaInfo.get "finish_reason" := by
    rw [dictOf_ok hout]
    simp only [Json.field]
    have hm := dictOf_ok hmeta
    unfold Fields.getD at hm
    split at hm
    · rw [hm]
    · next hhas =>
      cases hm
      rw [get_of_not_has hhas]
      rfl
  rw [hresult]
  simp only [stopReasonAt, hbody]
  unfold sglangStopReason at hstop
  simp only at hstop
  split at hstop
  · exact (subscript_ok hstop).symm
  · next hf =>
    cases hstop
    cases hr : metaInfo.get "finish_reason" with
    | obj fields =>
      cases fields with
      | nil => rfl
      | cons f fields => simp [hr, Json.truthy] at hf
    | null | bool | int | float | str | arr => rfl

theorem vllmStopReason_aborted {sid : String} {body : Json} {output choice : Fields}
    (h : vllmChoice sid body = .ok (output, choice)) (ha : ReportsAbort .vllm body) :
    vllmStopReason choice = .str "abort" := by
  have hreason : vllmStopReason choice = if (stopReasonAt .vllm body).pyEq (.str "cancelled") then
      .str "abort" else stopReasonAt .vllm body := by
    have hfield : (firstChoice body).field "finish_reason" = choice.get "finish_reason" := by
      rw [vllmChoice_ok h]
      rfl
    cases hr : choice.get "finish_reason" <;>
      simp only [vllmStopReason, stopReasonAt, hfield, hr]
  rw [hreason]
  rcases ha with ha | ⟨_, ha⟩
  · rw [ha]
    rfl
  · rw [ha]
    rfl

theorem completionsRead_stopReason {call : EngineCall} {body : Json} {result : EngineResult}
    (h : completionsRead call body = .ok result) :
    result.stopReason = stopReasonAt .completions body := by
  unfold completionsRead at h
  obtain ⟨choices, hchoices, h⟩ := bind_ok h
  obtain ⟨first, hfirst, h⟩ := bind_ok h
  obtain ⟨choice, hchoice, h⟩ := bind_ok h
  obtain ⟨blob, _, h⟩ := bind_ok h
  obtain ⟨pairs, _, h⟩ := bind_ok h
  cases h
  simp only [stopReasonAt, firstChoice_ok hchoices hfirst hchoice]
  rfl

/-- **An aborted body is read as an abort**, in each dialect. -/
theorem read_reportsAbort {d : Dialect} {py : PyText} {npLoad : NpLoad} {call : EngineCall}
    {body : Json} {result : EngineResult} (h : d.read py npLoad call body = .ok result)
    (ha : ReportsAbort d body) : result.stopReason = .str "abort" := by
  cases d with
  | sglang =>
    rcases ha with ha | ⟨hd, _⟩
    · exact (sglangRead_stopReason h).trans ha
    · cases hd
  | vllm =>
    simp only [Dialect.read, vllmRead] at h
    obtain ⟨⟨output, choice⟩, hchoice, h⟩ := bind_ok h
    simp only [vllmStopReason_aborted hchoice ha] at h
    cases h
    rfl
  | completions =>
    rcases ha with ha | ⟨hd, _⟩
    · exact (completionsRead_stopReason h).trans ha
    · cases hd

end RolloutProxy
