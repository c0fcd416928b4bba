/-
  File:      RolloutProxy/Engine/Routing.lean
  Subject:   REPACKING A ROUTING CAPTURE: `_pack_routed_experts` (rollout_sglang.py) and
             `_pack_vllm_routed_experts` (rollout_vllm.py).

  An engine reports one row of expert ids for each token of the stream but the last. The two
  packers read the two wire forms, cut a full answer down to the rows asked for, and store the
  ids as bytes. `np.load` is code outside this repository, a parameter here.
-/
import RolloutProxy.TokenStream.State
import RolloutProxy.Lib.Base64

namespace RolloutProxy

/-- The `(rows, cols)` the recorder holds for a stream. -/
abbrev Prior := Int × Int

/-- `start, cols_hint = prior or (0, None)`, a hint of zero columns being no hint. -/
def Prior.start (prior : Option Prior) : Int := (prior.map Prod.fst).getD 0

def Prior.colsHint (prior : Option Prior) : Option Int :=
  (prior.map Prod.snd).bind fun n => if n = 0 then none else some n

/-- `l[k:]`. -/
def sliceFrom {α : Type} (k : Int) (l : List α) : List α :=
  if 0 ≤ k then l.drop k.toNat else l.drop (l.length - (-k).toNat)

/-- Values that fit a byte, as the array conversion writes them. -/
def toByte (v : Int) : Byte := Fin.ofNat 256 v.toNat

def fitsByte (v : Int) : Bool := 0 ≤ v && v ≤ 255

/-- The record blob of expert ids. -/
def routedBlob (values : List Int) (rows cols start : Int) : RoutedExpertsBlob where
  data := Base64.encode (values.map toByte)
  rows := rows
  start := start
  cols := cols
  dtype := "uint8"

/-- What both packers end with: the ids as a blob, if each fits a byte. -/
def blobOfValues (message : String) (values : List Int) (rows cols start : Int) :
    Except PyError RoutedExpertsBlob :=
  if values.all fitsByte then .ok (routedBlob values rows cols start) else .error (.engine message)

/-! ## 1. SGLang: little-endian 32-bit integers -/

/-- One little-endian signed 32-bit integer. -/
def int32 (a b c d : Byte) : Int :=
  let n : Nat := a.val + 256 * b.val + 65536 * c.val + 16777216 * d.val
  if n < 2147483648 then n else n - 4294967296

/-- `np.frombuffer(data, dtype="<i4")`; `none` where the bytes are not whole integers. -/
def int32s : List Byte → Option (List Int)
  | [] => some []
  | a :: b :: c :: d :: rest => (int32s rest).map (int32 a b c d :: ·)
  | _ => none

/-- `np.frombuffer(base64.b64decode(encoded), dtype="<i4")`. -/
def int32Payload (encoded : Json) : Except PyError (List Int) :=
  match encoded with
  | .str text =>
    match Base64.decode false text with
    | none => .error (.other "Invalid base64-encoded string")
    | some bytes =>
      match int32s bytes with
      | none => .error (.other "buffer size must be a multiple of element size")
      | some values => .ok values
  | v => .error (.other ("argument should be a bytes-like object or ASCII string, not " ++
      quoted v.typeName))

/-- `_pack_routed_experts`. -/
def packRoutedExperts (metaInfo : Fields) (promptLen completionLen : Nat) (sid : String)
    (prior : Option Prior) : Except PyError RoutedExpertsBlob := do
  let encoded := metaInfo.get "routed_experts"
  if !encoded.truthy then
    .error (.engine ("Session " ++ sid ++ ": return_routed_experts was requested but the engine " ++
      "reported no routed_experts — were the SGLang servers launched with " ++
      "enable_return_routed_experts (slime's --use-rollout-routing-replay)?"))
  let values ← int32Payload encoded
  let fullRows : Int := promptLen + completionLen - 1
  let start := Prior.start prior
  let hint := Prior.colsHint prior
  let rows := fullRows - start
  -- an engine or router that ignored the start sent the full range
  let values :=
    if start ≠ 0 ∧ hint.any (fun cols => values.length = fullRows * cols) then
      sliceFrom (-(rows * hint.getD 0)) values
    else values
  if rows ≤ 0 ∨ values = [] ∨ values.length % rows ≠ 0 ∨
      hint.any (fun cols => values.length / rows ≠ cols) then
    .error (.engine ("Session " ++ sid ++ ": routed_experts payload does not line up with the " ++
      "stream (" ++ toString values.length ++ " values for " ++ pyStr rows ++ " rows = prompt " ++
      toString promptLen ++ " + completion " ++ toString completionLen ++ " - 1 - start " ++
      pyStr start ++ (hint.elim "" fun cols => ", expected " ++ pyStr cols ++ " cols") ++ ")"))
  blobOfValues ("Session " ++ sid ++ ": routed_experts ids outside [0, 256) (min " ++
    pyStr (values.min?.getD 0) ++ ", max " ++ pyStr (values.max?.getD 0) ++ ") do not fit uint8")
    values rows (values.length / rows) start

/-! ## 2. vLLM: an array file -/

/-- An array: its shape, the kind of its items, and, where they are integers, the items in
    row-major order. -/
structure NdArray where
  shape : List Nat
  kind : Char
  items : List Int
  size_eq : items.length = shape.prod

/-- What `np.load` returns: an array, or an archive of several. -/
inductive NpFile where
  | array (a : NdArray)
  | archive

/-- `np.load(io.BytesIO(data), allow_pickle=False)`; `none` where it raises. -/
abbrev NpLoad := List Byte → Option NpFile

/-- Rows and columns of the array as a token table. -/
def NdArray.rows (a : NdArray) : Nat := a.shape.headD 0
def NdArray.cols (a : NdArray) : Nat := a.shape.tail.prod

/-- The array a capture is read from, once its form has been checked. -/
def vllmArray (npLoad : NpLoad) (choice : Fields) (sid : String) : Except PyError NdArray :=
  match choice.get "routed_experts" with
  | .str text =>
    if text = "" then .error (.engine ("Session " ++ sid ++ ": return_routed_experts was " ++
      "requested but vLLM reported no routed_experts — enable --use-rollout-routing-replay on " ++
      "the engines")) else
    match (Base64.decode true text).bind npLoad with
    | none => .error (.engine ("Session " ++ sid ++ ": invalid vLLM routed_experts .npy payload"))
    | some .archive =>
      .error (.engine ("Session " ++ sid ++ ": vLLM routed_experts must be a numpy array"))
    | some (.array a) =>
      if (a.shape.length = 2 ∨ a.shape.length = 3) ∧ (a.kind = 'i' ∨ a.kind = 'u') ∧ a.items ≠ [] then
        .ok a
      else .error (.engine ("Session " ++ sid ++ ": vLLM routed_experts must be a nonempty " ++
        "integer token/layer array"))
  | _ => .error (.engine ("Session " ++ sid ++ ": return_routed_experts was requested but vLLM " ++
      "reported no routed_experts — enable --use-rollout-routing-replay on the engines"))

/-- `_pack_vllm_routed_experts`. -/
def packVllmRoutedExperts (npLoad : NpLoad) (choice : Fields) (promptLen completionLen : Nat)
    (sid : String) (prior : Option Prior) : Except PyError RoutedExpertsBlob := do
  let a ← vllmArray npLoad choice sid
  let fullRows : Int := promptLen + completionLen - 1
  let start := Prior.start prior
  let hint := Prior.colsHint prior
  let rows := fullRows - start
  let cols : Int := a.cols
  let values := if start ≠ 0 ∧ (a.rows : Int) = fullRows then sliceFrom (start * cols) a.items
    else a.items
  if rows ≤ 0 ∨ values.length / cols ≠ rows ∨ hint.any (fun n => cols ≠ n) then
    .error (.engine ("Session " ++ sid ++ ": vLLM routed_experts shape (" ++
      pyStr (values.length / cols) ++ ", " ++ pyStr cols ++ ") does not line up with " ++
      pyStr rows ++ " rows (start " ++ pyStr start ++ ", expected cols " ++
      ((prior.map Prod.snd).elim "None" pyStr) ++ ")"))
  blobOfValues ("Session " ++ sid ++ ": vLLM routed_experts ids outside [0, 256) do not fit uint8")
    values rows cols start

/-! ## 3. What a repacked capture holds -/

end RolloutProxy
