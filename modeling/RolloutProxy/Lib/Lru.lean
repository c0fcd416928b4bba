/-
  File:      RolloutProxy/Lib/Lru.lean
  Subject:   LEAST-RECENTLY-USED ORDER, and an insertion-ordered dictionary as its implementation.

  `Recency α` is what such an order means: the retained keys, and for each key the time of its last
  use. An eviction takes a key whose last use is the oldest (`IsOldest`), and a map that holds more
  than its capacity evicts until it fits (`Evictions`).

  `Represents d l`: the keys of the dictionary `d` are the retained ones of `l`, in the order of
  their last uses. Then moving a key to the end is a use, erasing it drops it, and the first entry
  is the oldest key.
-/
import RolloutProxy.Lib.Dict
import Mathlib.Data.Finset.Card
import Mathlib.Data.Finset.Dedup

namespace RolloutProxy

variable {α β : Type} [DecidableEq α]

/-! ## 1. Recency -/

/-- The retained keys with the times of their last uses. -/
structure Recency (α : Type) where
  keys : Finset α
  lastUse : α → Nat
  clock : Nat

namespace Recency

def empty : Recency α := ⟨∅, fun _ => 0, 0⟩

/-- A key is inserted or used, now. -/
def use (l : Recency α) (k : α) : Recency α where
  keys := insert k l.keys
  lastUse := fun j => if j = k then l.clock else l.lastUse j
  clock := l.clock + 1

def drop (l : Recency α) (k : α) : Recency α := { l with keys := l.keys.erase k }

omit [DecidableEq α] in
/-- A retained key that was not used since any other one. -/
def IsOldest (l : Recency α) (k : α) : Prop := k ∈ l.keys ∧ ∀ j ∈ l.keys, l.lastUse k ≤ l.lastUse j

/-- The oldest keys leave, one by one, until the rest fits. -/
inductive Evictions (capacity : Nat) : Recency α → List α → Recency α → Prop where
  | fits {l : Recency α} (h : l.keys.card ≤ capacity) : Evictions capacity l [] l
  | evict {l l' : Recency α} {k : α} {ks : List α} (hfull : capacity < l.keys.card)
      (hold : l.IsOldest k) (h : Evictions capacity (l.drop k) ks l') :
      Evictions capacity l (k :: ks) l'

theorem Evictions.card_le {capacity : Nat} {l l' : Recency α} {ks : List α}
    (h : Evictions capacity l ks l') : l'.keys.card ≤ capacity := by
  induction h with
  | fits h => exact h
  | evict _ _ _ ih => exact ih

/-- A map that fits evicts nothing. -/
theorem Evictions.eq_of_fits {capacity : Nat} {l l' : Recency α} {ks : List α}
    (h : Evictions capacity l ks l') (hfits : l.keys.card ≤ capacity) : l' = l := by
  cases h with
  | fits _ => rfl
  | evict hfull _ _ => omega

/-- What is left, and what left: the retained keys without the evicted ones. -/
theorem Evictions.keys_eq {capacity : Nat} {l l' : Recency α} {ks : List α}
    (h : Evictions capacity l ks l') : l'.keys = l.keys \ ks.toFinset := by
  induction h with
  | fits _ => simp
  | @evict l l' k ks _ _ _ ih =>
      rw [ih]
      ext j
      simp only [drop, Finset.mem_sdiff, Finset.mem_erase, List.mem_toFinset, List.mem_cons]
      tauto

end Recency

/-! ## 2. The dictionary that implements it -/

/-- The keys of the dictionary are the retained ones, in the order of their last uses. -/
structure Represents (d : Dict α β) (l : Recency α) : Prop where
  keys : d.keys.toFinset = l.keys
  sorted : d.keys.Pairwise fun a b => l.lastUse a < l.lastUse b
  past : ∀ k ∈ d.keys, l.lastUse k < l.clock

namespace Dict

theorem keys_erase (d : Dict α β) (k : α) : (d.erase k).keys = d.keys.filter (· ≠ k) := by
  simp only [keys, erase, List.filter_map]
  rfl

theorem keys_moveToEnd {d : Dict α β} {k : α} {v : β} (h : d.get? k = some v) :
    (d.moveToEnd k).keys = d.keys.filter (· ≠ k) ++ [k] := by
  unfold keys
  rw [moveToEnd_entries h, List.map_append]
  congr 1
  exact keys_erase d k

/-- A new value is the last entry, whether its key was there or not. -/
theorem keys_set_moveToEnd (d : Dict α β) (k : α) (v : β) :
    ((d.set k v).moveToEnd k).keys = d.keys.filter (· ≠ k) ++ [k] := by
  rw [keys_moveToEnd (get?_set_self d k v)]
  congr 1
  unfold keys
  rw [set_entries]
  split
  · rw [replace_keys]
  · rw [List.map_append, List.filter_append]
    simp

omit [DecidableEq α] in
theorem keys_popFirst {d d' : Dict α β} {e : α × β} (h : d.popFirst = some (e, d')) :
    d.keys = e.1 :: d'.keys := by
  unfold keys
  rw [popFirst_entries h, List.map_cons]

omit [DecidableEq α] in
theorem keys_nodup (d : Dict α β) : d.keys.Nodup := d.nodup

omit [DecidableEq α] in
theorem keys_length (d : Dict α β) : d.keys.length = d.size := List.length_map _

theorem mem_keys_iff (d : Dict α β) (k : α) : k ∈ d.keys ↔ ∃ v, d.get? k = some v := by
  have h := d.get?_eq_none_iff k
  cases hv : d.get? k with
  | none => simp [h.mp hv]
  | some v =>
      rw [hv] at h
      simpa using h

end Dict

namespace Represents

variable {d d' : Dict α β} {l : Recency α}

theorem empty : Represents (∅ : Dict α β) (Recency.empty : Recency α) where
  keys := rfl
  sorted := .nil
  past := by simp [Dict.keys, EmptyCollection.emptyCollection, Dict.empty]

theorem mem_iff (h : Represents d l) (k : α) : k ∈ l.keys ↔ ∃ v, d.get? k = some v := by
  rw [← h.keys, List.mem_toFinset, Dict.mem_keys_iff]

theorem card_eq (h : Represents d l) : l.keys.card = d.size := by
  rw [← h.keys, List.toFinset_card_of_nodup d.keys_nodup, d.keys_length]

/-- **A key at the end is the one used last.** -/
theorem use {k : α} (h : Represents d l) (hk : d'.keys = d.keys.filter (· ≠ k) ++ [k]) :
    Represents d' (l.use k) where
  keys := by
    rw [hk, List.toFinset_append, List.toFinset_filter, h.keys]
    ext j
    by_cases hj : j = k <;> simp [Recency.use, hj]
  sorted := by
    rw [hk, List.pairwise_append]
    refine ⟨?_, List.pairwise_singleton _ _, ?_⟩
    · refine (h.sorted.filter _).imp_of_mem fun {a b} ha hb hab => ?_
      have hak : a ≠ k := by simpa using (List.mem_filter.mp ha).2
      have hbk : b ≠ k := by simpa using (List.mem_filter.mp hb).2
      simpa only [Recency.use, if_neg hak, if_neg hbk] using hab
    · intro a ha b hb
      rw [List.mem_singleton] at hb
      have hak : a ≠ k := by simpa using (List.mem_filter.mp ha).2
      simp only [Recency.use, if_neg hak, if_pos hb]
      exact h.past a (List.mem_filter.mp ha).1
  past := by
    intro j hj
    rw [hk] at hj
    rcases List.mem_append.mp hj with hj | hj
    · have hjk : j ≠ k := by simpa using (List.mem_filter.mp hj).2
      simp only [Recency.use, if_neg hjk]
      exact Nat.lt_succ_of_lt (h.past j (List.mem_filter.mp hj).1)
    · rw [List.mem_singleton] at hj
      simp only [Recency.use, if_pos hj]
      exact Nat.lt_succ_self _

theorem moveToEnd {k : α} {v : β} (h : Represents d l) (hk : d.get? k = some v) :
    Represents (d.moveToEnd k) (l.use k) := h.use (Dict.keys_moveToEnd hk)

theorem set_moveToEnd (h : Represents d l) (k : α) (v : β) :
    Represents ((d.set k v).moveToEnd k) (l.use k) := h.use (Dict.keys_set_moveToEnd d k v)

theorem erase (h : Represents d l) (k : α) : Represents (d.erase k) (l.drop k) where
  keys := by
    rw [Dict.keys_erase, List.toFinset_filter, h.keys]
    ext j
    simp only [Recency.drop, Finset.mem_filter, Finset.mem_erase, decide_eq_true_eq]
    tauto
  sorted := by
    rw [Dict.keys_erase]
    exact h.sorted.filter _
  past := by
    intro j hj
    rw [Dict.keys_erase] at hj
    exact h.past j (List.mem_filter.mp hj).1

/-- **The first entry is the least recently used one.** -/
theorem popFirst {e : α × β} (h : Represents d l) (hp : d.popFirst = some (e, d')) :
    l.IsOldest e.1 ∧ Represents d' (l.drop e.1) := by
  have hkeys := Dict.keys_popFirst hp
  have hnd := d.keys_nodup
  have hs := h.sorted
  rw [hkeys] at hnd hs
  rw [List.nodup_cons] at hnd
  rw [List.pairwise_cons] at hs
  refine ⟨⟨?_, fun j hj => ?_⟩, ?_, ?_, ?_⟩
  · rw [← h.keys, hkeys]
    simp
  · rw [← h.keys, hkeys, List.mem_toFinset, List.mem_cons] at hj
    rcases hj with rfl | hj
    · exact le_rfl
    · exact (hs.1 j hj).le
  · rw [Recency.drop, ← h.keys, hkeys, List.toFinset_cons, Finset.erase_insert]
    simpa using hnd.1
  · exact hs.2
  · intro j hj
    exact h.past j (by rw [hkeys]; exact List.mem_cons_of_mem _ hj)

end Represents

end RolloutProxy
