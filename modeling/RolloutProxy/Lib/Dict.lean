/-
  File:      RolloutProxy/Lib/Dict.lean
  Subject:   INSERTION-ORDERED DICTIONARIES: Python's `dict` and `OrderedDict` as one structure.

  A `Dict α β` is the list of its entries in insertion order, together with the fact that no key
  occurs twice; so every operation below is total and an entry list with a duplicate key cannot
  be built. The operations are named after what the Python methods do:

  * `get?` (`d.get(k)`), `set` (`d[k] = v`: an existing key keeps its place, a new one is last),
    `erase` (`d.pop(k, None)`), `moveToEnd`, `popFirst` (`popitem(last=False)`);
  * the `get?_…` lemmas say what each operation does to a lookup; they are the simp set every
    later file uses, and no later file looks at the entries to find out what a lookup returns.
-/
import Mathlib.Data.List.Nodup

namespace RolloutProxy

/-- A dictionary: its entries in insertion order, no key twice. -/
structure Dict (α β : Type) where
  entries : List (α × β)
  nodup : (entries.map Prod.fst).Nodup

namespace Dict

variable {α β : Type}

@[ext] theorem ext {d d' : Dict α β} (h : d.entries = d'.entries) : d = d' := by
  cases d
  cases d'
  cases h
  rfl

def empty : Dict α β := ⟨[], List.nodup_nil⟩

instance : EmptyCollection (Dict α β) := ⟨empty⟩
instance : Inhabited (Dict α β) := ⟨empty⟩

/-- The keys in insertion order. -/
def keys (d : Dict α β) : List α := d.entries.map Prod.fst

def size (d : Dict α β) : Nat := d.entries.length

variable [DecidableEq α]

/-! ## 1. Lookup in an entry list -/

/-- The value of the first entry with key `k`. -/
def find (k : α) : List (α × β) → Option β
  | [] => none
  | (k', v) :: rest => if k' = k then some v else find k rest

theorem find_append (k : α) (l l' : List (α × β)) :
    find k (l ++ l') = (find k l).or (find k l') := by
  induction l with
  | nil => rfl
  | cons e l ih =>
    obtain ⟨k', v⟩ := e
    by_cases h : k' = k <;> simp [find, h, ih]

theorem find_eq_none_iff (k : α) (l : List (α × β)) :
    find k l = none ↔ k ∉ l.map Prod.fst := by
  induction l with
  | nil => simp [find]
  | cons e l ih =>
    obtain ⟨k', v⟩ := e
    by_cases h : k' = k
    · simp [find, h]
    · simp [find, h, ih, Ne.symm h]

theorem mem_of_find {k : α} {v : β} {l : List (α × β)} (h : find k l = some v) : (k, v) ∈ l := by
  induction l with
  | nil => simp [find] at h
  | cons e l ih =>
    obtain ⟨k', v'⟩ := e
    by_cases hk : k' = k
    · simp [find, hk] at h
      simp [hk, h]
    · simp [find, hk] at h
      exact List.mem_cons_of_mem _ (ih h)

theorem find_of_mem {k : α} {v : β} {l : List (α × β)} (hn : (l.map Prod.fst).Nodup)
    (h : (k, v) ∈ l) : find k l = some v := by
  induction l with
  | nil => simp at h
  | cons e l ih =>
    obtain ⟨k', v'⟩ := e
    simp only [List.map_cons, List.nodup_cons] at hn
    rcases List.mem_cons.mp h with e | hm
    · cases e
      simp [find]
    · have hne : k' ≠ k := fun e => hn.1 (e ▸ List.mem_map.mpr ⟨(k, v), hm, rfl⟩)
      simp [find, hne, ih hn.2 hm]

/-- Overwriting the value of `k` in place. -/
def replace (k : α) (v : β) (l : List (α × β)) : List (α × β) :=
  l.map fun e => if e.1 = k then (k, v) else e

theorem replace_keys (k : α) (v : β) (l : List (α × β)) :
    (replace k v l).map Prod.fst = l.map Prod.fst := by
  induction l with
  | nil => rfl
  | cons e l ih =>
    simp only [replace, List.map_cons] at ih ⊢
    by_cases h : e.1 = k <;> simp [h, ih]

theorem find_replace (k k' : α) (v : β) (l : List (α × β)) :
    find k' (replace k v l) =
      if k' = k then (if k ∈ l.map Prod.fst then some v else none) else find k' l := by
  induction l with
  | nil => simp [replace, find]
  | cons e l ih =>
    obtain ⟨a, b⟩ := e
    simp only [replace, List.map_cons] at ih ⊢
    by_cases ha : a = k
    · subst ha
      by_cases hk : k' = a
      · simp [find, hk]
      · simp [find, hk, Ne.symm hk, ih]
    · by_cases hk : k' = k
      · subst hk
        have hm : k' ∈ a :: l.map Prod.fst ↔ k' ∈ l.map Prod.fst := by simp [Ne.symm ha]
        simp only [if_neg ha, find, ih, hm, if_true]
      · simp [find, ha, hk, ih]

/-! ## 2. The operations -/

/-- `d.get(k)`. -/
def get? (d : Dict α β) (k : α) : Option β := find k d.entries

/-- `k in d`. -/
def contains (d : Dict α β) (k : α) : Bool := (d.get? k).isSome

/-- `d[k] = v`. -/
def set (d : Dict α β) (k : α) (v : β) : Dict α β :=
  if h : k ∈ d.entries.map Prod.fst then
    ⟨replace k v d.entries, by rw [replace_keys]; exact d.nodup⟩
  else
    ⟨d.entries ++ [(k, v)], by
      rw [List.map_append, List.nodup_append]
      exact ⟨d.nodup, by simp, by
        intro a ha b hb
        simp at hb
        subst hb
        exact fun e => h (e ▸ ha)⟩⟩

/-- `d.pop(k, None)`. -/
def erase (d : Dict α β) (k : α) : Dict α β :=
  ⟨d.entries.filter fun e => e.1 ≠ k,
    d.nodup.sublist (List.Sublist.map _ List.filter_sublist)⟩

/-- `{k: f(v) for k, v in d.items()}`. -/
def map {γ : Type} (f : β → γ) (d : Dict α β) : Dict α γ :=
  ⟨d.entries.map fun e => (e.1, f e.2), by
    rw [List.map_map]
    exact d.nodup⟩

/-- `d.move_to_end(k)`, without effect on a missing key. -/
def moveToEnd (d : Dict α β) (k : α) : Dict α β :=
  match d.get? k with
  | none => d
  | some v => (d.erase k).set k v

/-- `d.popitem(last=False)`. -/
def popFirst (d : Dict α β) : Option ((α × β) × Dict α β) :=
  match h : d.entries with
  | [] => none
  | e :: rest => some (e, ⟨rest, by
      have hn := d.nodup
      rw [h, List.map_cons, List.nodup_cons] at hn
      exact hn.2⟩)

/-! ## 3. What a lookup returns after each operation -/

@[simp] theorem get?_empty (k : α) : (∅ : Dict α β).get? k = none := rfl

@[simp] theorem get?_set_self (d : Dict α β) (k : α) (v : β) : (d.set k v).get? k = some v := by
  unfold set get?
  split
  · next h => simp [find_replace, h]
  · next h => simp [find_append, (find_eq_none_iff k d.entries).mpr h, find]

@[simp] theorem get?_set_ne (d : Dict α β) {k k' : α} (v : β) (h : k' ≠ k) :
    (d.set k v).get? k' = d.get? k' := by
  unfold set get?
  split
  · simp [find_replace, h]
  · simp [find_append, find, Ne.symm h]

theorem get?_set (d : Dict α β) (k k' : α) (v : β) :
    (d.set k v).get? k' = if k' = k then some v else d.get? k' := by
  by_cases h : k' = k
  · subst h; simp
  · simp [h]

theorem find_filter_ne (k k' : α) (l : List (α × β)) :
    find k' (l.filter fun e => e.1 ≠ k) = if k' = k then none else find k' l := by
  induction l with
  | nil => simp [find]
  | cons e l ih =>
    obtain ⟨a, b⟩ := e
    by_cases ha : a = k
    · subst ha
      by_cases hk : k' = a
      · subst hk; simpa [find] using ih
      · simp [find, hk, Ne.symm hk] at ih ⊢
        exact ih
    · by_cases hk : k' = k
      · subst hk
        simp [find, ha] at ih ⊢
        exact ih
      · by_cases hak : a = k'
        · subst hak
          simp [find, ha]
        · simp [find, ha, hk, hak] at ih ⊢
          exact ih

theorem get?_erase (d : Dict α β) (k k' : α) :
    (d.erase k).get? k' = if k' = k then none else d.get? k' :=
  find_filter_ne k k' d.entries

@[simp] theorem get?_erase_self (d : Dict α β) (k : α) : (d.erase k).get? k = none := by
  simp [get?_erase]

@[simp] theorem get?_erase_ne (d : Dict α β) {k k' : α} (h : k' ≠ k) :
    (d.erase k).get? k' = d.get? k' := by
  simp [get?_erase, h]

@[simp] theorem get?_map {γ : Type} (f : β → γ) (d : Dict α β) (k : α) :
    (d.map f).get? k = (d.get? k).map f := by
  simp only [map, get?]
  induction d.entries with
  | nil => rfl
  | cons e l ih =>
    obtain ⟨a, b⟩ := e
    by_cases h : a = k <;> simp [find, h, ih]

@[simp] theorem get?_moveToEnd (d : Dict α β) (k k' : α) :
    (d.moveToEnd k).get? k' = d.get? k' := by
  unfold moveToEnd
  split
  · rfl
  · next v hv =>
    by_cases h : k' = k
    · subst h; simp [hv]
    · simp [h]

theorem get?_eq_none_iff (d : Dict α β) (k : α) : d.get? k = none ↔ k ∉ d.keys :=
  find_eq_none_iff k d.entries

theorem get?_eq_some_iff (d : Dict α β) (k : α) (v : β) :
    d.get? k = some v ↔ (k, v) ∈ d.entries :=
  ⟨mem_of_find, find_of_mem d.nodup⟩

@[simp] theorem contains_eq_false_iff (d : Dict α β) (k : α) :
    d.contains k = false ↔ d.get? k = none := by
  simp [contains]

@[simp] theorem contains_eq_true_iff (d : Dict α β) (k : α) :
    d.contains k = true ↔ ∃ v, d.get? k = some v := by
  simp [contains, Option.isSome_iff_exists]

/-- A missing key can be erased without effect. -/
theorem erase_absent {d : Dict α β} {k : α} (h : d.get? k = none) : d.erase k = d := by
  apply Dict.ext
  refine List.filter_eq_self.mpr fun e he => ?_
  have hk : k ∉ d.keys := (get?_eq_none_iff d k).mp h
  simp only [ne_eq, decide_not, Bool.not_eq_true', decide_eq_false_iff_not]
  rintro rfl
  exact hk (List.mem_map_of_mem he)

theorem moveToEnd_absent {d : Dict α β} {k : α} (h : d.get? k = none) : d.moveToEnd k = d := by
  unfold moveToEnd
  rw [h]

/-- The first entry is the one that leaves, every other lookup stays. -/
theorem get?_popFirst {d d' : Dict α β} {e : α × β} (h : d.popFirst = some (e, d')) (k : α) :
    d'.get? k = if k = e.1 then none else d.get? k := by
  unfold popFirst at h
  split at h
  · cases h
  · next e' rest he =>
    simp only [Option.some.injEq, Prod.mk.injEq] at h
    obtain ⟨rfl, rfl⟩ := h
    obtain ⟨a, b⟩ := e'
    have hn := d.nodup
    rw [he, List.map_cons, List.nodup_cons] at hn
    by_cases hk : k = a
    · subst hk
      simpa [get?] using (find_eq_none_iff k rest).mpr hn.1
    · simp [get?, he, find, hk, Ne.symm hk]

/-- Setting a key to the value it has changes nothing. -/
theorem set_get? {d : Dict α β} {k : α} {v : β} (h : d.get? k = some v) : d.set k v = d := by
  have hmem := mem_of_find h
  apply ext
  rw [show (d.set k v).entries = replace k v d.entries by
    unfold set
    rw [dif_pos (List.mem_map.mpr ⟨(k, v), hmem, rfl⟩)]]
  unfold replace
  conv_rhs => rw [← List.map_id d.entries]
  refine List.map_congr_left fun e he => ?_
  by_cases hk : e.1 = k
  · rw [if_pos hk]
    have he' : d.get? k = some e.2 := find_of_mem d.nodup (by rw [← hk]; exact he)
    rw [h, Option.some.injEq] at he'
    rw [← hk, he']
    rfl
  · rw [if_neg hk]
    rfl

/-! ## 4. Mapping the values -/

theorem set_entries (d : Dict α β) (k : α) (v : β) :
    (d.set k v).entries =
      if k ∈ d.entries.map Prod.fst then replace k v d.entries else d.entries ++ [(k, v)] := by
  unfold set
  split <;> rfl

omit [DecidableEq α] in
theorem map_keys {γ : Type} (f : β → γ) (d : Dict α β) :
    (d.map f).entries.map Prod.fst = d.entries.map Prod.fst := by
  simp only [map, List.map_map]
  rfl

omit [DecidableEq α] in
@[simp] theorem size_map {γ : Type} (f : β → γ) (d : Dict α β) : (d.map f).size = d.size :=
  List.length_map _

theorem map_set {γ : Type} (f : β → γ) (d : Dict α β) (k : α) (v : β) :
    (d.set k v).map f = (d.map f).set k (f v) := by
  apply ext
  rw [set_entries, map_keys]
  simp only [map, set_entries]
  split
  · simp only [replace, List.map_map]
    refine List.map_congr_left fun e _ => ?_
    by_cases h : e.1 = k <;> simp [h]
  · rw [List.map_append, List.map_singleton]

theorem map_erase {γ : Type} (f : β → γ) (d : Dict α β) (k : α) :
    (d.erase k).map f = (d.map f).erase k := by
  apply ext
  simp only [map, erase, List.filter_map]
  rfl

theorem map_moveToEnd {γ : Type} (f : β → γ) (d : Dict α β) (k : α) :
    (d.moveToEnd k).map f = (d.map f).moveToEnd k := by
  unfold moveToEnd
  rw [get?_map]
  cases d.get? k with
  | none => rfl
  | some v => simp only [Option.map_some, map_set, map_erase]

omit [DecidableEq α] in
theorem popFirst_map {γ : Type} (f : β → γ) (d : Dict α β) :
    (d.map f).popFirst = d.popFirst.map fun p => ((p.1.1, f p.1.2), p.2.map f) := by
  obtain ⟨entries, hn⟩ := d
  cases entries with
  | nil => rfl
  | cons e rest => rfl

/-! ## 5. The order of the entries -/

omit [DecidableEq α] in
/-- A nonempty suffix holds the last item. -/
theorem last_mem_of_suffix {γ : Type} {l s : List γ} {x : γ} (h : s <:+ l ++ [x]) (hs : s ≠ []) :
    x ∈ s := by
  have hl := h.getLast hs
  rw [List.getLast_append_of_ne_nil _ (by simp)] at hl
  rw [← show s.getLast hs = x from hl]
  exact List.getLast_mem hs

omit [DecidableEq α] in
theorem popFirst_entries {d d' : Dict α β} {e : α × β} (h : d.popFirst = some (e, d')) :
    d.entries = e :: d'.entries := by
  unfold popFirst at h
  split at h
  · cases h
  · next he =>
    simp only [Option.some.injEq, Prod.mk.injEq] at h
    obtain ⟨rfl, rfl⟩ := h
    exact he

omit [DecidableEq α] in
theorem popFirst_eq_none {d : Dict α β} (h : d.popFirst = none) : d.size = 0 := by
  unfold popFirst at h
  split at h
  · next he => simp [size, he]
  · cases h

omit [DecidableEq α] in
theorem popFirst_size {d d' : Dict α β} {e : α × β} (h : d.popFirst = some (e, d')) :
    d.size = d'.size + 1 := by
  unfold size
  rw [popFirst_entries h, List.length_cons]

theorem size_set_le (d : Dict α β) (k : α) (v : β) : (d.set k v).size ≤ d.size + 1 := by
  unfold size
  rw [set_entries]
  split
  · simp [replace]
  · simp

theorem size_erase_le (d : Dict α β) (k : α) : (d.erase k).size ≤ d.size :=
  List.length_filter_le _ _

/-- A key that is new, or was just taken out, is set at the end. -/
theorem set_entries_of_none {d : Dict α β} {k : α} (v : β) (h : d.get? k = none) :
    (d.set k v).entries = d.entries ++ [(k, v)] := by
  have hk : k ∉ d.entries.map Prod.fst := (find_eq_none_iff k d.entries).mp h
  simp [set, hk]

/-- A moved key is the last one. -/
theorem moveToEnd_entries {d : Dict α β} {k : α} {v : β} (h : d.get? k = some v) :
    (d.moveToEnd k).entries = (d.erase k).entries ++ [(k, v)] := by
  unfold moveToEnd
  rw [h]
  exact set_entries_of_none v (get?_erase_self d k)

theorem size_moveToEnd (d : Dict α β) (k : α) : (d.moveToEnd k).size = d.size := by
  cases h : d.get? k with
  | none =>
      unfold moveToEnd
      rw [h]
  | some v =>
      have hmem : (k, v) ∈ d.entries := mem_of_find h
      have hn := d.nodup
      unfold size
      rw [moveToEnd_entries h, List.length_append, List.length_singleton]
      simp only [erase]
      have hcount := List.length_eq_countP_add_countP (fun e : α × β => decide (e.1 ≠ k))
        (l := d.entries)
      rw [List.countP_eq_length_filter] at hcount
      rw [hcount]
      congr 1
      have hone : (d.entries.map Prod.fst).count k = 1 :=
        List.count_eq_one_of_mem hn (List.mem_map.mpr ⟨_, hmem, rfl⟩)
      rw [List.count, List.countP_map] at hone
      rw [← hone]
      congr 1
      funext e
      by_cases he : e.1 = k <;> simp [he]

/-- Lookups in a dictionary whose entries are a suffix agree with the whole. -/
theorem get?_of_suffix {d d' : Dict α β} (h : d'.entries <:+ d.entries) {k : α} {v : β}
    (hv : d'.get? k = some v) : d.get? k = some v :=
  (get?_eq_some_iff d k v).mpr (h.subset ((get?_eq_some_iff d' k v).mp hv))

end Dict

end RolloutProxy
