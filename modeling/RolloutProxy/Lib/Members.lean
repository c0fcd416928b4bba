/-
  File:      RolloutProxy/Lib/Members.lean
  Subject:   SETS BY KEY: a dictionary of member lists, as `setdefault(k, set()).add(x)` and
             `discard(x)` keep them. A key without members is not in the dictionary.

  * `mem_addTo`, `mem_discard` say who is a member afterwards; no later file looks at the lists
    themselves.
-/
import RolloutProxy.Lib.Dict

namespace RolloutProxy

namespace Dict

variable {α β : Type} [DecidableEq α]

/-- The members under a key. -/
def members (d : Dict α (List β)) (k : α) : List β := (d.get? k).getD []

theorem members_set (d : Dict α (List β)) (k k' : α) (l : List β) :
    (d.set k l).members k' = if k' = k then l else d.members k' := by
  unfold members
  rw [get?_set]
  split <;> rfl

@[simp] theorem members_erase (d : Dict α (List β)) (k k' : α) :
    (d.erase k).members k' = if k' = k then [] else d.members k' := by
  unfold members
  rw [get?_erase]
  split <;> rfl

variable [DecidableEq β]

/-- `d.setdefault(k, set()).add(x)`. -/
def addTo (d : Dict α (List β)) (k : α) (x : β) : Dict α (List β) :=
  if x ∈ d.members k then d else d.set k (d.members k ++ [x])

/-- `d[k].discard(x)`, and `d.pop(k)` where that was the last member. -/
def discard (d : Dict α (List β)) (k : α) (x : β) : Dict α (List β) :=
  let rest := (d.members k).filter (· ≠ x)
  if rest.isEmpty then d.erase k else d.set k rest

variable {d : Dict α (List β)} {k k' : α} {x y : β}

/-- **Adding a member** adds it under its key, and nothing else. -/
@[simp] theorem mem_addTo : y ∈ (d.addTo k x).members k' ↔ k' = k ∧ y = x ∨ y ∈ d.members k' := by
  unfold addTo
  by_cases hx : x ∈ d.members k
  · rw [if_pos hx]
    constructor
    · exact .inr
    · rintro (⟨rfl, rfl⟩ | h)
      · exact hx
      · exact h
  · rw [if_neg hx, members_set]
    by_cases hk : k' = k
    · subst hk
      simp [or_comm]
    · simp [hk]

/-- **Discarding a member** removes it under its key, and nothing else. -/
@[simp] theorem mem_discard :
    y ∈ (d.discard k x).members k' ↔ y ∈ d.members k' ∧ ¬ (k' = k ∧ y = x) := by
  unfold discard
  simp only
  by_cases hk : k' = k
  · subst hk
    split
    · next he =>
      have hnone := List.isEmpty_iff.mp he
      simp only [members_erase, if_true, List.not_mem_nil, true_and, false_iff, not_and, not_not]
      intro hy
      by_contra hne
      exact absurd (hnone ▸ List.mem_filter.mpr ⟨hy, by simpa using hne⟩) List.not_mem_nil
    · simp [members_set]
  · split <;> simp [members_set, hk]

end Dict

end RolloutProxy
