/-
  File:      RolloutProxy/Service/Ids.lean
  Subject:   THE IDS A SESSION IS KEYED ON (service.py): the id syntax the server accepts and the
             stream id of an agent, which tells every two agents of every two sessions apart.
-/
import Mathlib.Init

namespace RolloutProxy

/-- The characters of `[A-Za-z0-9._]`. -/
def isIdChar (c : Char) : Bool := c.isAlphanum || c == '.' || c == '_'

/-- `_SESSION_ID_RE.match`: `$` also matches in front of a final newline. -/
def isSessionId (s : String) : Bool :=
  let l := s.toList
  let body := if l.getLast? = some '\n' then l.dropLast else l
  body.all isIdChar && 1 ≤ body.length && body.length ≤ 256

/-- `stream_id`. -/
def streamId (session agent : String) : String := session ++ "-" ++ agent

/-- An accepted id has no separator in it. -/
theorem isSessionId_no_dash {s : String} (h : isSessionId s = true) : '-' ∉ s.toList := by
  have hdash : ¬ isIdChar '-' = true := by decide
  unfold isSessionId at h
  simp only [Bool.and_eq_true, List.all_eq_true] at h
  intro hm
  by_cases hl : s.toList.getLast? = some '\n'
  · rw [if_pos hl] at h
    obtain ⟨init, hi⟩ := List.getLast?_eq_some_iff.mp hl
    rw [hi] at hm h
    rw [List.dropLast_concat] at h
    rcases List.mem_append.mp hm with hm | hm
    · exact hdash (h.1.1 _ hm)
    · simp at hm
  · rw [if_neg hl] at h
    exact hdash (h.1.1 _ hm)

/-- What stands before and behind the first separator. -/
theorem append_dash_inj {a b a' b' : List Char} (ha : '-' ∉ a) (ha' : '-' ∉ a')
    (h : a ++ '-' :: b = a' ++ '-' :: b') : a = a' ∧ b = b' := by
  induction a generalizing a' with
  | nil =>
      cases a' with
      | nil => simpa using h
      | cons c a' =>
          simp only [List.nil_append, List.cons_append, List.cons.injEq] at h
          exact absurd (h.1 ▸ List.mem_cons_self) ha'
  | cons c a ih =>
      cases a' with
      | nil =>
          simp only [List.nil_append, List.cons_append, List.cons.injEq] at h
          exact absurd (h.1 ▸ List.mem_cons_self) ha
      | cons c' a' =>
          simp only [List.cons_append, List.cons.injEq] at h
          obtain ⟨e, e'⟩ := ih (fun hm => ha (List.mem_cons_of_mem _ hm))
            (fun hm => ha' (List.mem_cons_of_mem _ hm)) h.2
          exact ⟨by rw [h.1, e], e'⟩

/-- **Two agents share a stream id only where they are the same agent of the same session.** -/
theorem streamId_inj {s a s' a' : String} (hs : isSessionId s = true) (hs' : isSessionId s' = true)
    (h : streamId s a = streamId s' a') : s = s' ∧ a = a' := by
  have hl := congrArg String.toList h
  simp only [streamId, String.toList_append] at hl
  have hd : "-".toList = ['-'] := rfl
  rw [hd, List.append_assoc, List.append_assoc, List.singleton_append, List.singleton_append] at hl
  obtain ⟨e, e'⟩ := append_dash_inj (isSessionId_no_dash hs) (isSessionId_no_dash hs') hl
  exact ⟨String.ext e, String.ext e'⟩

end RolloutProxy
