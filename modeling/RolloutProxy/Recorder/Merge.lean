/-
  File:      RolloutProxy/Recorder/Merge.lean
  Subject:   FOLDING A ROUTING BLOB into an agent's stored coverage: `_merge_routed_experts`
             (recorder.py).
-/
import RolloutProxy.Recorder.Record

namespace RolloutProxy

/-- A `routed_experts` argument: absent, a mapping that does not validate, or a blob. -/
inductive BlobArg where
  | absent
  | malformed
  | blob (b : RoutedExpertsBlob)

/-- `base64.b64encode(a + b).decode("ascii")` of two encoded texts. -/
def concatData (a b : String) : Option String :=
  match Base64.decode false a, Base64.decode false b with
  | some x, some y => some (Base64.encode (x ++ y))
  | _, _ => none

/-- The stored blob after `blob` arrives on top of `prev`; `none` leaves the stored one. -/
def mergedBlob (prev : Option RoutedExpertsBlob) (blob : RoutedExpertsBlob) :
    Option RoutedExpertsBlob :=
  match prev with
  | some p =>
    if blob.start ≠ 0 ∧ blob.start = p.rows ∧ blob.cols = p.cols then
      (concatData p.data blob.data).map fun data =>
        { data := data, rows := p.rows + blob.rows, start := 0, cols := p.cols, dtype := p.dtype }
    else if blob.start = 0 ∧ p.rows ≤ blob.rows then some blob
    else none
  | none => if blob.start = 0 then some blob else none

/-- `_merge_routed_experts`. -/
def mergeRoutedExperts (experts : Dict String RoutedExpertsBlob) (agent : String) :
    BlobArg → Dict String RoutedExpertsBlob
  | .absent => experts
  | .malformed => experts
  | .blob b =>
    match mergedBlob (experts.get? agent) b with
    | some merged => experts.set agent merged
    | none => experts

/-- The routing update of one turn: a new conversation clears the coverage, then the blob is
    folded in. Turns without an agent id carry none. -/
def routeTurn (experts : Dict String RoutedExpertsBlob) (agent : Option String)
    (newConversation : Bool) (blob : BlobArg) : Dict String RoutedExpertsBlob :=
  match agent with
  | none => experts
  | some a => mergeRoutedExperts (if newConversation then experts.erase a else experts) a blob

theorem mergeRoutedExperts_get?_ne {experts : Dict String RoutedExpertsBlob} {agent k : String}
    {blob : BlobArg} (h : k ≠ agent) :
    (mergeRoutedExperts experts agent blob).get? k = experts.get? k := by
  cases blob with
  | absent => rfl
  | malformed => rfl
  | blob b =>
    simp only [mergeRoutedExperts]
    split
    · rw [Dict.get?_set_ne _ _ h]
    · rfl

/-- Another agent's coverage is not touched. -/
theorem routeTurn_get?_ne {experts : Dict String RoutedExpertsBlob} {agent : Option String}
    {new : Bool} {blob : BlobArg} {k : String} (h : some k ≠ agent) :
    (routeTurn experts agent new blob).get? k = experts.get? k := by
  cases agent with
  | none => rfl
  | some a =>
    have hk : k ≠ a := fun e => h (by rw [e])
    simp only [routeTurn]
    rw [mergeRoutedExperts_get?_ne hk]
    split
    · rw [Dict.get?_erase_ne _ hk]
    · rfl

end RolloutProxy
