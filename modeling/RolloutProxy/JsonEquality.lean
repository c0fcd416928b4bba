/-
  File:      RolloutProxy/JsonEquality.lean
  Subject:   PYTHON'S EQUALITY IS ONE on decoded JSON: `pyEq`, with the identity of the decoder's
             `NaN`, is reflexive (Json.lean), symmetric and transitive where no dict has a key twice.

  * `Same` is the comparison a list or a dict makes of what it holds.
  * `pyEqFields_iff`: a dict's entries are found in the other one.
-/
import RolloutProxy.Json
import Mathlib.Data.List.Perm.Subperm

namespace RolloutProxy

namespace Json

/-! ## 1. Numbers -/

theorem PyFloat.eq_symm {x y : PyFloat} (h : PyFloat.eq x y = true) : PyFloat.eq y x = true := by
  cases x <;> cases y <;> simp_all [PyFloat.eq]

theorem PyFloat.eq_trans {x y z : PyFloat} (h : PyFloat.eq x y = true)
    (h' : PyFloat.eq y z = true) : PyFloat.eq x z = true := by
  cases x <;> cases y <;> cases z <;> simp_all [PyFloat.eq]

/-- A number is compared by its value. -/
theorem pyEq_number {a : Json} {x : PyFloat} (ha : a.number = some x) (b : Json) :
    pyEq a b = match b.number with
      | some y => PyFloat.eq x y
      | none => false := by
  cases a with
  | bool v | int v | float v =>
    cases ha
    cases b <;> rfl
  | null | str | arr | obj => cases ha

/-- Only a number is equal to one. -/
theorem number_of_pyEq {a b : Json} {y : PyFloat} (hb : b.number = some y)
    (h : pyEq a b = true) : ∃ x, a.number = some x ∧ PyFloat.eq x y = true := by
  cases ha : a.number with
  | some x =>
    rw [pyEq_number ha, hb] at h
    exact ⟨x, rfl, h⟩
  | none =>
    cases a with
    | bool v | int v | float v => cases ha
    | null | str s | arr l | obj l =>
      cases b with
      | bool v | int v | float v => simp [pyEq, number] at h
      | null | str | arr | obj => cases hb

/-! ## 2. Entries -/

/-- What a list or a dict holds is compared by identity first. -/
def Same (a b : Json) : Prop := (pyEq a b || isNan a && isNan b) = true

theorem pyEqItems_cons {a b : Json} {l m : List Json} :
    pyEqItems (a :: l) (b :: m) = true ↔ Same a b ∧ pyEqItems l m = true := by
  rw [pyEqItems, Bool.and_eq_true]
  rfl

/-- A dict's entries are found in the other one. -/
theorem pyEqFields_iff {m : Fields} : ∀ {l : Fields},
    pyEqFields l m = true ↔ ∀ e ∈ l, Fields.has m e.1 = true ∧ Same e.2 (Fields.get m e.1)
  | [] => by simp [pyEqFields]
  | (k, a) :: l => by
      rw [pyEqFields, Bool.and_eq_true, Bool.and_eq_true, pyEqFields_iff, List.forall_mem_cons]
      rfl

theorem pyEq_obj {l m : Fields} :
    pyEq (.obj l) (.obj m) = true ↔ l.length = m.length ∧
      ∀ e ∈ l, Fields.has m e.1 = true ∧ Same e.2 (Fields.get m e.1) := by
  rw [pyEq, Bool.and_eq_true, beq_iff_eq, pyEqFields_iff]

theorem has_iff {d : Fields} {key : String} : Fields.has d key = true ↔ key ∈ d.map Prod.fst := by
  simp [Fields.has]

/-- A key of a dict has an entry with its value. -/
theorem entry_of_has : ∀ {d : Fields} {key : String}, Fields.has d key = true →
    (key, Fields.get d key) ∈ d
  | [], _, h => by simp [Fields.has] at h
  | (k, v) :: d, key, h => by
      unfold Fields.get
      split
      · next hk => exact hk ▸ List.mem_cons_self
      · next hk =>
        have hrest : Fields.has d key = true := by simpa [Fields.has, hk] using h
        exact List.mem_cons_of_mem _ (entry_of_has hrest)

/-- An absent key is looked up to `None`. -/
theorem get_absent : ∀ {d : Fields} {key : String}, Fields.has d key = false →
    Fields.get d key = .null
  | [], _, _ => rfl
  | (k, v) :: d, key, h => by
      simp only [Fields.has, List.any_cons, Bool.or_eq_false_iff, decide_eq_false_iff_not] at h
      unfold Fields.get
      rw [if_neg h.1]
      exact get_absent (d := d) h.2

/-- An entry is what its key is looked up to, where no key is there twice. -/
theorem get_of_mem : ∀ {d : Fields} {e : String × Json}, (d.map Prod.fst).Nodup → e ∈ d →
    Fields.get d e.1 = e.2
  | [], _, _, h => absurd h List.not_mem_nil
  | (k, v) :: d, e, hn, h => by
      obtain ⟨hk, hd⟩ := List.nodup_cons.mp hn
      unfold Fields.get
      rcases List.mem_cons.mp h with rfl | h
      · rw [if_pos rfl]
      · have hmem : e.1 ∈ d.map Prod.fst := List.mem_map_of_mem h
        have hne : k ≠ e.1 := fun he => by
          rw [he] at hk
          exact hk hmem
        rw [if_neg hne, get_of_mem hd h]

/-- Dicts of one size: where all keys of the first are in the second, so are all of the second in
    the first. -/
theorem keys_back {l m : Fields} (hl : (l.map Prod.fst).Nodup) (hlen : l.length = m.length)
    (h : ∀ e ∈ l, Fields.has m e.1 = true) {key : String} (hm : Fields.has m key = true) :
    Fields.has l key = true := by
  have hsub : l.map Prod.fst ⊆ m.map Prod.fst := fun k hk => by
    obtain ⟨e, he, rfl⟩ := List.mem_map.mp hk
    exact has_iff.mp (h e he)
  have hperm : (l.map Prod.fst).Perm (m.map Prod.fst) :=
    (hl.subperm hsub).perm_of_length_le (by simp [hlen])
  exact has_iff.mpr (hperm.mem_iff.mpr (has_iff.mp hm))

/-! ## 3. Symmetry -/

theorem keysOnceFields_iff : ∀ {d : Fields}, KeysOnceFields d ↔ ∀ e ∈ d, KeysOnce e.2
  | [] => by simp [KeysOnceFields]
  | (k, v) :: d => by rw [KeysOnceFields, keysOnceFields_iff, List.forall_mem_cons]

theorem Same.of_nan {a b : Json} (h : isNan a = true ∧ isNan b = true) : Same a b := by
  unfold Same
  rw [h.1, h.2, Bool.and_self, Bool.or_true]

theorem Same.of_pyEq {a b : Json} (h : pyEq a b = true) : Same a b := by
  unfold Same
  rw [h, Bool.true_or]

theorem same_iff {a b : Json} : Same a b ↔ pyEq a b = true ∨ isNan a = true ∧ isNan b = true := by
  unfold Same
  rw [Bool.or_eq_true, Bool.and_eq_true]

mutual
theorem pyEq_symm : ∀ a b : Json, KeysOnce a → KeysOnce b → pyEq a b = true → pyEq b a = true
  | .null, b, _, _, h => by
      cases b with
      | null => exact h
      | _ => simp [pyEq, number] at h
  | .bool _, b, _, _, h | .int _, b, _, _, h | .float _, b, _, _, h => by
      rw [pyEq_number rfl] at h
      split at h
      · next y hy =>
        rw [pyEq_number hy]
        exact PyFloat.eq_symm h
      · cases h
  | .str s, b, _, _, h => by
      cases b with
      | str t =>
        rw [pyEq_str, beq_iff_eq] at h ⊢
        exact h.symm
      | _ => simp [pyEq, number] at h
  | .arr l, b, ha, hb, h => by
      cases b with
      | arr m =>
        rw [pyEq] at h ⊢
        exact pyEqItems_symm l m ha hb h
      | _ => simp [pyEq, number] at h
  | .obj l, b, ha, hb, h => by
      cases b with
      | obj m =>
        obtain ⟨hlen, hl⟩ := pyEq_obj.mp h
        refine pyEq_obj.mpr ⟨hlen.symm, fun e he => ?_⟩
        have hback := keys_back ha.1 hlen (fun e he => (hl e he).1)
          (has_iff.mpr (List.mem_map_of_mem he))
        have hmem := entry_of_has hback
        have hsame := pyEqFields_symm l m ha.2 hb.2 hl _ hmem
        rw [get_of_mem hb.1 he] at hsame
        exact ⟨hback, hsame⟩
      | _ => simp [pyEq, number] at h
theorem pyEqItems_symm : ∀ l m : List Json, KeysOnceItems l → KeysOnceItems m →
    pyEqItems l m = true → pyEqItems m l = true
  | [], m, _, _, h => by
      cases m with
      | nil => exact h
      | cons b m => simp [pyEqItems] at h
  | a :: l, m, hl, hm, h => by
      cases m with
      | nil => simp [pyEqItems] at h
      | cons b m =>
        obtain ⟨hsame, hrest⟩ := pyEqItems_cons.mp h
        refine pyEqItems_cons.mpr ⟨?_, pyEqItems_symm l m hl.2 hm.2 hrest⟩
        rcases same_iff.mp hsame with heq | hnan
        · exact .of_pyEq (pyEq_symm a b hl.1 hm.1 heq)
        · exact .of_nan hnan.symm
theorem pyEqFields_symm : ∀ l m : Fields, KeysOnceFields l → KeysOnceFields m →
    (∀ e ∈ l, Fields.has m e.1 = true ∧ Same e.2 (Fields.get m e.1)) →
      ∀ e ∈ l, Same (Fields.get m e.1) e.2
  | [], _, _, _, _, _, he => absurd he List.not_mem_nil
  | (k, a) :: l, m, hl, hm, h, e, he => by
      rcases List.mem_cons.mp he with rfl | he
      · obtain ⟨hhas, hsame⟩ := h (k, a) List.mem_cons_self
        rcases same_iff.mp hsame with heq | hnan
        · exact .of_pyEq (pyEq_symm a _ hl.1
            (keysOnceFields_iff.mp hm _ (entry_of_has hhas)) heq)
        · exact .of_nan hnan.symm
      · exact pyEqFields_symm l m hl.2 hm (fun e he => h e (List.mem_cons_of_mem _ he)) e he
end

/-! ## 4. Transitivity -/

/-- Nothing is equal to `NaN`. -/
theorem pyEq_nan {a b : Json} (hb : isNan b = true) : pyEq a b = false := by
  cases b with
  | float x =>
    cases x with
    | nan =>
      cases h : pyEq a (.float .nan) with
      | false => rfl
      | true =>
        obtain ⟨x, -, hx⟩ := number_of_pyEq rfl h
        cases x <;> cases hx
    | finite | inf => cases hb
  | null | bool | int | str | arr | obj => cases hb

theorem nan_pyEq {a b : Json} (ha : isNan a = true) : pyEq a b = false := by
  cases a with
  | float x =>
    cases x with
    | nan =>
      rw [pyEq_number rfl]
      split <;> rfl
    | finite | inf => cases ha
  | null | bool | int | str | arr | obj => cases ha

/-- Transitivity of what is held, from the one of equality. -/
theorem Same.trans_of {a b c : Json} (heq : pyEq a b = true → pyEq b c = true → pyEq a c = true)
    (h : Same a b) (h' : Same b c) : Same a c := by
  rcases same_iff.mp h with h | h <;> rcases same_iff.mp h' with h' | h'
  · exact .of_pyEq (heq h h')
  · rw [pyEq_nan h'.1] at h
    cases h
  · rw [nan_pyEq h.2] at h'
    cases h'
  · exact .of_nan ⟨h.1, h'.2⟩

mutual
theorem pyEq_trans : ∀ a b c : Json, pyEq a b = true → pyEq b c = true → pyEq a c = true
  | .null, b, c, h, h' => by
      cases b with
      | null => exact h'
      | _ => simp [pyEq, number] at h
  | .bool _, b, c, h, h' | .int _, b, c, h, h' | .float _, b, c, h, h' => by
      rw [pyEq_number rfl] at h ⊢
      split at h
      · next y hy =>
        rw [pyEq_number hy] at h'
        split at h'
        · exact PyFloat.eq_trans h h'
        · cases h'
      · cases h
  | .str s, b, c, h, h' => by
      cases b with
      | str t =>
        rw [pyEq_str, beq_iff_eq] at h
        rw [h]
        exact h'
      | _ => simp [pyEq, number] at h
  | .arr l, b, c, h, h' => by
      cases b with
      | arr m =>
        cases c with
        | arr n =>
          rw [pyEq] at h h' ⊢
          exact pyEqItems_trans l m n h h'
        | _ => simp [pyEq, number] at h'
      | _ => simp [pyEq, number] at h
  | .obj l, b, c, h, h' => by
      cases b with
      | obj m =>
        cases c with
        | obj n =>
          obtain ⟨hlen, hl⟩ := pyEq_obj.mp h
          obtain ⟨hlen', hm⟩ := pyEq_obj.mp h'
          exact pyEq_obj.mpr ⟨hlen.trans hlen', pyEqFields_trans l m n hl hm⟩
        | _ => simp [pyEq, number] at h'
      | _ => simp [pyEq, number] at h
theorem pyEqItems_trans : ∀ l m n : List Json, pyEqItems l m = true → pyEqItems m n = true →
    pyEqItems l n = true
  | [], m, n, h, h' => by
      cases m with
      | nil => exact h'
      | cons b m => simp [pyEqItems] at h
  | a :: l, m, n, h, h' => by
      cases m with
      | nil => simp [pyEqItems] at h
      | cons b m =>
        cases n with
        | nil => simp [pyEqItems] at h'
        | cons c n =>
          obtain ⟨hsame, hrest⟩ := pyEqItems_cons.mp h
          obtain ⟨hsame', hrest'⟩ := pyEqItems_cons.mp h'
          exact pyEqItems_cons.mpr ⟨hsame.trans_of (pyEq_trans a b c) hsame',
            pyEqItems_trans l m n hrest hrest'⟩
theorem pyEqFields_trans : ∀ l m n : Fields,
    (∀ e ∈ l, Fields.has m e.1 = true ∧ Same e.2 (Fields.get m e.1)) →
    (∀ e ∈ m, Fields.has n e.1 = true ∧ Same e.2 (Fields.get n e.1)) →
      ∀ e ∈ l, Fields.has n e.1 = true ∧ Same e.2 (Fields.get n e.1)
  | [], _, _, _, _, _, he => absurd he List.not_mem_nil
  | (k, a) :: l, m, n, h, h', e, he => by
      rcases List.mem_cons.mp he with rfl | he
      · obtain ⟨hhas, hsame⟩ := h (k, a) List.mem_cons_self
        obtain ⟨hhas', hsame'⟩ := h' _ (entry_of_has hhas)
        exact ⟨hhas', hsame.trans_of (pyEq_trans a _ _) hsame'⟩
      · exact pyEqFields_trans l m n (fun e he => h e (List.mem_cons_of_mem _ he)) h' e he
end

end Json

end RolloutProxy
