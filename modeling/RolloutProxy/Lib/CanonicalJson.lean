/-
  File:      RolloutProxy/Lib/CanonicalJson.lean
  Subject:   CANONICAL JSON TEXT: one text for each value up to the order of its object keys.

  * `Data`: JSON values over any type of numbers; `Alike`: equal up to the order of the keys.
  * `sorted_eq_iff`: entries with different keys have one order.
  * `sortKeys`: the fields of every object by key; `sortKeys_eq_iff`: the normal form for `Alike`,
    where no object has a key twice.
  * `write`: the text without blanks. Its strings and numbers end where what follows begins;
    `write_cancel`: a text has one reading, whatever is behind it.
  * `canonical_eq`: canonical texts are equal where the normal forms are.
-/
import RolloutProxy.JsonText
import RolloutProxy.Lib.Dict
import Mathlib.Data.List.Perm.Subperm
import Mathlib.Data.List.Sort
import Mathlib.Data.String.Basic

namespace RolloutProxy.CanonicalJson

/-! ## 1. Values -/

/-- JSON with numbers in `ν`. -/
inductive Data (ν : Type) where
  | null
  | bool (b : Bool)
  | num (x : ν)
  | str (s : String)
  | arr (items : List (Data ν))
  | obj (fields : List (String × Data ν))

variable {ν : Type}

/-! ## 2. Entries in the order of their keys -/

section ByKey

variable {κ β : Type} [LinearOrder κ]

/-- By key. -/
def byKey (e f : κ × β) : Prop := e.1 ≤ f.1

instance : DecidableRel (@byKey κ β _) := fun e f => inferInstanceAs (Decidable (e.1 ≤ f.1))

instance : Std.Total (@byKey κ β _) := ⟨fun e f => le_total e.1 f.1⟩

instance : IsTrans (κ × β) byKey := ⟨fun _ _ _ h h' => le_trans h h'⟩

/-- **Entries with different keys have one order**: what was sorted is the same up to it. -/
theorem sorted_eq_iff {l m : List (κ × β)} (hl : (l.map Prod.fst).Nodup) :
    l.insertionSort byKey = m.insertionSort byKey ↔ l.Perm m := by
  constructor
  · intro h
    exact (List.perm_insertionSort byKey l).symm.trans (h ▸ List.perm_insertionSort byKey m)
  · intro hp
    have hperm : (l.insertionSort byKey).Perm (m.insertionSort byKey) :=
      (List.perm_insertionSort byKey l).trans (hp.trans (List.perm_insertionSort byKey m).symm)
    refine List.Perm.eq_of_pairwise (fun e f he hf hef hfe => ?_)
      (List.pairwise_insertionSort byKey l) (List.pairwise_insertionSort byKey m) hperm
    have he' : e ∈ l := (List.perm_insertionSort byKey l).mem_iff.mp he
    have hf' : f ∈ l := (List.perm_insertionSort byKey l).mem_iff.mp (hperm.mem_iff.mpr hf)
    exact List.inj_on_of_nodup_map hl he' hf' (le_antisymm hef hfe)

end ByKey

/-! ## 3. Alike values, and their normal form -/

namespace Data

mutual
/-- Equal up to the order of object keys. -/
def Alike : Data ν → Data ν → Prop
  | .null, .null => True
  | .bool a, .bool b => a = b
  | .num x, .num y => x = y
  | .str s, .str t => s = t
  | .arr l, .arr m => AlikeItems l m
  | .obj l, .obj m => l.length = m.length ∧ AlikeFields l m
  | _, _ => False
def AlikeItems : List (Data ν) → List (Data ν) → Prop
  | [], [] => True
  | a :: l, b :: m => Alike a b ∧ AlikeItems l m
  | _, _ => False
/-- Each field is found in the other object. -/
def AlikeFields : List (String × Data ν) → List (String × Data ν) → Prop
  | [], _ => True
  | (k, a) :: l, m => (∃ b, (k, b) ∈ m ∧ Alike a b) ∧ AlikeFields l m
end

mutual
/-- No object has a key twice. -/
def KeysOnce : Data ν → Prop
  | .arr items => KeysOnceItems items
  | .obj fields => (fields.map Prod.fst).Nodup ∧ KeysOnceFields fields
  | _ => True
def KeysOnceItems : List (Data ν) → Prop
  | [] => True
  | v :: items => KeysOnce v ∧ KeysOnceItems items
def KeysOnceFields : List (String × Data ν) → Prop
  | [] => True
  | (_, v) :: fields => KeysOnce v ∧ KeysOnceFields fields
end

mutual
/-- Every object with its fields in the order of their keys. -/
def sortKeys : Data ν → Data ν
  | .arr items => .arr (sortItems items)
  | .obj fields => .obj ((sortFields fields).insertionSort byKey)
  | v => v
def sortItems : List (Data ν) → List (Data ν)
  | [] => []
  | v :: items => sortKeys v :: sortItems items
def sortFields : List (String × Data ν) → List (String × Data ν)
  | [] => []
  | (k, v) :: fields => (k, sortKeys v) :: sortFields fields
end

/-! ## 4. Text -/

section Write

variable (text : ν → List Char)

mutual
/-- The text of a value: no blanks, the fields as they stand. -/
def write : Data ν → List Char
  | .null => nullText
  | .bool true => trueText
  | .bool false => falseText
  | .num x => text x
  | .str s => stringText s.toList
  | .arr [] => ['[', ']']
  | .arr (v :: items) => '[' :: (write v ++ writeItems items)
  | .obj [] => ['{', '}']
  | .obj ((k, v) :: fields) => '{' :: (stringText k.toList ++ ':' :: (write v ++ writeFields fields))
/-- The items behind the first one, and the bracket. -/
def writeItems : List (Data ν) → List Char
  | [] => [']']
  | v :: items => ',' :: (write v ++ writeItems items)
/-- The fields behind the first one, and the brace. -/
def writeFields : List (String × Data ν) → List Char
  | [] => ['}']
  | (k, v) :: fields => ',' :: (stringText k.toList ++ ':' :: (write v ++ writeFields fields))
end

/-- The canonical text. -/
def canonical (v : Data ν) : List Char := write text (sortKeys v)

/-- Number literals: runs of number characters, another one for another number. -/
structure Literals : Prop where
  injective : Function.Injective text
  nonempty : ∀ x, text x ≠ []
  chars : ∀ x, ∀ c ∈ text x, isNumberChar c = true

end Write

/-! ## 5. One reading -/

/-- What a value is by its first character. -/
def headKind (c : Char) : Nat :=
  if c = 'n' then 0 else if c = 't' then 1 else if c = 'f' then 2 else if c = '"' then 3
  else if c = '[' then 4 else if c = '{' then 5 else 6

def kind : Data ν → Nat
  | .null => 0
  | .bool true => 1
  | .bool false => 2
  | .str _ => 3
  | .arr _ => 4
  | .obj _ => 5
  | .num _ => 6

variable {text : ν → List Char}

/-- The first character tells the kind, and no value begins with a closing character. -/
theorem write_head (ht : Literals text) (v : Data ν) :
    ∃ c l, write text v = c :: l ∧ headKind c = kind v ∧ c ∉ [']', '}', ','] := by
  cases v with
  | null => exact ⟨'n', _, rfl, rfl, by decide⟩
  | bool b => cases b <;> exact ⟨_, _, rfl, rfl, by decide⟩
  | num x =>
    obtain ⟨c, l, hcl⟩ := List.exists_cons_of_ne_nil (ht.nonempty x)
    have hnum := ht.chars x c (by rw [hcl]; exact List.mem_cons_self)
    have hc := isNumberChar_head hnum
    simp only [List.mem_cons, List.not_mem_nil, or_false, not_or] at hc
    refine ⟨c, l, hcl, ?_, fun hm => ?_⟩
    · simp only [headKind, hc, if_false, kind]
    · simp only [List.mem_cons, List.not_mem_nil, or_false] at hm
      rcases hm with rfl | rfl | rfl <;> exact absurd hnum (by decide)
  | str s => exact ⟨'"', _, rfl, rfl, by decide⟩
  | arr items => cases items <;> exact ⟨'[', _, rfl, rfl, by decide⟩
  | obj fields =>
    rcases fields with _ | ⟨⟨k, v⟩, fields⟩ <;> exact ⟨'{', _, rfl, rfl, by decide⟩

/-- A string literal ends itself. -/
theorem stringText_cancel {s s' : String} {r r' : List Char}
    (h : stringText s.toList ++ r = stringText s'.toList ++ r') : s = s' ∧ r = r' := by
  obtain ⟨l, hl, hread⟩ := read_string s r
  obtain ⟨l', hl', hread'⟩ := read_string s' r'
  rw [hl, hl', List.cons.injEq] at h
  rw [h.2, hread', Option.some.injEq, Prod.mk.injEq] at hread
  exact ⟨hread.1.symm, hread.2.symm⟩

theorem stops_writeItems (items : List (Data ν)) (r : List Char) :
    Stops (writeItems text items ++ r) := by
  cases items <;> exact stops_of_head (by decide) _

theorem stops_writeFields (fields : List (String × Data ν)) (r : List Char) :
    Stops (writeFields text fields ++ r) := by
  rcases fields with _ | ⟨⟨k, v⟩, fields⟩ <;> exact stops_of_head (by decide) _

/-- Equal texts are texts of values of one kind. -/
theorem kind_of_write (ht : Literals text) {a b : Data ν} {r r' : List Char}
    (h : write text a ++ r = write text b ++ r') : kind a = kind b := by
  obtain ⟨c, l, hc, hkind, -⟩ := write_head ht a
  obtain ⟨c', l', hc', hkind', -⟩ := write_head ht b
  rw [hc, hc', List.cons_append, List.cons_append, List.cons.injEq] at h
  rw [← hkind, ← hkind', h.1]

/-- A value is told from the end of an array. -/
theorem bracket_ne_write (ht : Literals text) (v : Data ν) {r l : List Char} :
    ']' :: r ≠ write text v ++ l := by
  obtain ⟨c, k, hc, -, hclosing⟩ := write_head ht v
  rw [hc, List.cons_append]
  intro h
  obtain ⟨rfl, -⟩ := List.cons.inj h
  exact hclosing (by decide)

/-- A number ends where what follows begins. -/
theorem num_cancel (ht : Literals text) {x y : ν} {r r' : List Char} (hr : Stops r)
    (hr' : Stops r') (h : text x ++ r = text y ++ r') : x = y ∧ r = r' := by
  obtain ⟨hrun, hrest⟩ := lexeme (ht.chars x) hr
  obtain ⟨hrun', hrest'⟩ := lexeme (ht.chars y) hr'
  rw [h, hrun'] at hrun
  rw [h, hrest'] at hrest
  exact ⟨(ht.injective hrun).symm, hrest.symm⟩

mutual
/-- **A text has one reading**, whatever is behind it. -/
theorem write_cancel (ht : Literals text) : ∀ (a b : Data ν) {r r' : List Char}, Stops r →
    Stops r' → write text a ++ r = write text b ++ r' → a = b ∧ r = r'
  | a, b, r, r', hr, hr', h => by
      have hkind := kind_of_write ht h
      match a, b, hkind, h with
      | .null, .null, _, h => exact ⟨rfl, List.append_cancel_left h⟩
      | .bool true, .bool true, _, h => exact ⟨rfl, List.append_cancel_left h⟩
      | .bool false, .bool false, _, h => exact ⟨rfl, List.append_cancel_left h⟩
      | .num x, .num y, _, h =>
        obtain ⟨hxy, hrest⟩ := num_cancel ht hr hr' h
        exact ⟨congrArg Data.num hxy, hrest⟩
      | .str s, .str s', _, h =>
        obtain ⟨hs, hrest⟩ := stringText_cancel h
        exact ⟨congrArg Data.str hs, hrest⟩
      | .arr [], .arr [], _, h => exact ⟨rfl, List.append_cancel_left h⟩
      | .arr [], .arr (b :: m), _, h =>
        simp only [write, List.cons_append, List.append_assoc, List.cons.injEq, true_and] at h
        exact absurd h (bracket_ne_write ht b)
      | .arr (a :: l), .arr [], _, h =>
        simp only [write, List.cons_append, List.append_assoc, List.cons.injEq, true_and] at h
        exact absurd h.symm (bracket_ne_write ht a)
      | .arr (a :: l), .arr (b :: m), _, h =>
        simp only [write, List.cons_append, List.append_assoc, List.cons.injEq, true_and] at h
        obtain ⟨hab, hrest⟩ := write_cancel ht a b (stops_writeItems l r) (stops_writeItems m r') h
        obtain ⟨hlm, hrest⟩ := writeItems_cancel ht l m hrest
        exact ⟨by rw [hab, hlm], hrest⟩
      | .obj [], .obj [], _, h => exact ⟨rfl, List.append_cancel_left h⟩
      | .obj [], .obj ((k, b) :: m), _, h =>
        simp only [write, stringText, List.cons_append, List.cons.injEq, true_and] at h
        exact absurd h.1 (by decide)
      | .obj ((k, a) :: l), .obj [], _, h =>
        simp only [write, stringText, List.cons_append, List.cons.injEq, true_and] at h
        exact absurd h.1 (by decide)
      | .obj ((k, a) :: l), .obj ((k', b) :: m), _, h =>
        simp only [write, List.cons_append, List.append_assoc, List.cons.injEq, true_and] at h
        obtain ⟨hk, h⟩ := stringText_cancel h
        rw [List.cons.injEq] at h
        obtain ⟨hab, hrest⟩ := write_cancel ht a b (stops_writeFields l r) (stops_writeFields m r') h.2
        obtain ⟨hlm, hrest⟩ := writeFields_cancel ht l m hrest
        exact ⟨by rw [hk, hab, hlm], hrest⟩
theorem writeItems_cancel (ht : Literals text) : ∀ (l m : List (Data ν)) {r r' : List Char},
    writeItems text l ++ r = writeItems text m ++ r' → l = m ∧ r = r'
  | [], [], r, r', h => ⟨rfl, List.append_cancel_left h⟩
  | [], b :: m, r, r', h => by
      simp only [writeItems, List.cons_append, List.cons.injEq] at h
      exact absurd h.1 (by decide)
  | a :: l, [], r, r', h => by
      simp only [writeItems, List.cons_append, List.cons.injEq] at h
      exact absurd h.1 (by decide)
  | a :: l, b :: m, r, r', h => by
      simp only [writeItems, List.cons_append, List.append_assoc, List.cons.injEq, true_and] at h
      obtain ⟨hab, hrest⟩ := write_cancel ht a b (stops_writeItems l r) (stops_writeItems m r') h
      obtain ⟨hlm, hrest⟩ := writeItems_cancel ht l m hrest
      exact ⟨by rw [hab, hlm], hrest⟩
theorem writeFields_cancel (ht : Literals text) : ∀ (l m : List (String × Data ν))
    {r r' : List Char}, writeFields text l ++ r = writeFields text m ++ r' → l = m ∧ r = r'
  | [], [], r, r', h => ⟨rfl, List.append_cancel_left h⟩
  | [], (k, b) :: m, r, r', h => by
      simp only [writeFields, List.cons_append, List.cons.injEq] at h
      exact absurd h.1 (by decide)
  | (k, a) :: l, [], r, r', h => by
      simp only [writeFields, List.cons_append, List.cons.injEq] at h
      exact absurd h.1 (by decide)
  | (k, a) :: l, (k', b) :: m, r, r', h => by
      simp only [writeFields, List.cons_append, List.append_assoc, List.cons.injEq, true_and] at h
      obtain ⟨hk, h⟩ := stringText_cancel h
      rw [List.cons.injEq] at h
      obtain ⟨hab, hrest⟩ := write_cancel ht a b (stops_writeFields l r) (stops_writeFields m r') h.2
      obtain ⟨hlm, hrest⟩ := writeFields_cancel ht l m hrest
      exact ⟨by rw [hk, hab, hlm], hrest⟩
end

/-! ## 6. Values that are alike -/

theorem keysOnceFields_forall : ∀ {fields : List (String × Data ν)},
    KeysOnceFields fields ↔ ∀ e ∈ fields, KeysOnce e.2
  | [] => by simp [KeysOnceFields]
  | (k, v) :: fields => by rw [KeysOnceFields, keysOnceFields_forall, List.forall_mem_cons]

theorem alikeFields_forall {m : List (String × Data ν)} : ∀ {l : List (String × Data ν)},
    AlikeFields l m ↔ ∀ e ∈ l, ∃ b, (e.1, b) ∈ m ∧ Alike e.2 b
  | [] => by simp [AlikeFields]
  | (k, a) :: l => by rw [AlikeFields, alikeFields_forall, List.forall_mem_cons]

/-- Objects are alike where every key has alike values in both, or a value in neither. -/
theorem alike_obj_iff {l m : List (String × Data ν)} (hl : (l.map Prod.fst).Nodup)
    (hm : (m.map Prod.fst).Nodup) :
    Alike (.obj l) (.obj m) ↔ ∀ k, Option.Rel Alike (Dict.find k l) (Dict.find k m) := by
  rw [Alike, alikeFields_forall]
  constructor
  · rintro ⟨hlen, hfields⟩ k
    have hsub : l.map Prod.fst ⊆ m.map Prod.fst := fun k' hk => by
      obtain ⟨e, he, rfl⟩ := List.mem_map.mp hk
      obtain ⟨b, hb, -⟩ := hfields e he
      exact List.mem_map.mpr ⟨_, hb, rfl⟩
    have hperm : (l.map Prod.fst).Perm (m.map Prod.fst) :=
      (hl.subperm hsub).perm_of_length_le (by simp [hlen])
    cases hfind : Dict.find k l with
    | none =>
      have habsent : Dict.find k m = none :=
        (Dict.find_eq_none_iff k m).mpr fun hk =>
          (Dict.find_eq_none_iff k l).mp hfind (hperm.mem_iff.mpr hk)
      rw [habsent]
      exact .none
    | some a =>
      obtain ⟨b, hb, hab⟩ := hfields _ (Dict.mem_of_find hfind)
      rw [Dict.find_of_mem hm hb]
      exact .some hab
  · intro h
    have hkeys : (l.map Prod.fst).Perm (m.map Prod.fst) :=
      (List.perm_ext_iff_of_nodup hl hm).mpr fun k => by
        have hnone := Dict.find_eq_none_iff k l
        have hnone' := Dict.find_eq_none_iff k m
        have hk := h k
        cases hfind : Dict.find k l with
        | none =>
          rw [hfind] at hk hnone
          cases hfind' : Dict.find k m with
          | none => exact iff_of_false (hnone.mp rfl) (hnone'.mp hfind')
          | some b =>
            rw [hfind'] at hk
            cases hk
        | some a =>
          cases hfind' : Dict.find k m with
          | none =>
            rw [hfind, hfind'] at hk
            cases hk
          | some b =>
            exact iff_of_true (List.mem_map.mpr ⟨_, Dict.mem_of_find hfind, rfl⟩)
              (List.mem_map.mpr ⟨_, Dict.mem_of_find hfind', rfl⟩)
    refine ⟨by simpa using hkeys.length_eq, fun e he => ?_⟩
    have hk := h e.1
    rw [Dict.find_of_mem hl he] at hk
    cases hfind : Dict.find e.1 m with
    | none =>
      rw [hfind] at hk
      cases hk
    | some b =>
      rw [hfind] at hk
      cases hk with
      | some hab => exact ⟨b, Dict.mem_of_find hfind, hab⟩

/-- Objects that begin with one key. -/
theorem alike_obj_cons {k : String} {a b : Data ν} {l m : List (String × Data ν)}
    (hl : k ∉ l.map Prod.fst) (hm : k ∉ m.map Prod.fst) :
    Alike (.obj ((k, a) :: l)) (.obj ((k, b) :: m)) ↔ Alike a b ∧ Alike (.obj l) (.obj m) := by
  have hhead : (∃ b', (k, b') ∈ (k, b) :: m ∧ Alike a b') ↔ Alike a b := by
    constructor
    · rintro ⟨b', hb', h⟩
      rcases List.mem_cons.mp hb' with heq | hmem
      · cases heq
        exact h
      · exact absurd (List.mem_map.mpr ⟨_, hmem, rfl⟩) hm
    · exact fun h => ⟨b, List.mem_cons_self, h⟩
  have hrest : AlikeFields l ((k, b) :: m) ↔ AlikeFields l m := by
    rw [alikeFields_forall, alikeFields_forall]
    refine forall₂_congr fun e he => exists_congr fun c => and_congr_left fun _ => ?_
    have hne : e.1 ≠ k := fun h => hl (h ▸ List.mem_map_of_mem he)
    rw [List.mem_cons]
    exact ⟨fun h => h.resolve_left fun heq => hne (Prod.mk.inj heq).1, .inr⟩
  rw [Alike, Alike, AlikeFields, hhead, hrest, List.length_cons, List.length_cons,
    Nat.add_right_cancel_iff]
  exact and_left_comm

theorem alike_obj_nil : Alike (.obj [] : Data ν) (.obj []) := ⟨rfl, trivial⟩

theorem sortItems_eq : ∀ items : List (Data ν), sortItems items = items.map sortKeys
  | [] => rfl
  | v :: items => by rw [sortItems, sortItems_eq, List.map_cons]

theorem alikeItems_map {α : Type} {f g : α → Data ν} : ∀ {l : List α},
    AlikeItems (l.map f) (l.map g) ↔ ∀ a ∈ l, Alike (f a) (g a)
  | [] => by simp [AlikeItems]
  | a :: l => by rw [List.map_cons, List.map_cons, AlikeItems, alikeItems_map, List.forall_mem_cons]

theorem keysOnceItems_forall : ∀ {items : List (Data ν)},
    KeysOnceItems items ↔ ∀ v ∈ items, KeysOnce v
  | [] => by simp [KeysOnceItems]
  | v :: items => by rw [KeysOnceItems, keysOnceItems_forall, List.forall_mem_cons]

theorem sortFields_eq : ∀ fields : List (String × Data ν),
    sortFields fields = fields.map fun e => (e.1, sortKeys e.2)
  | [] => rfl
  | (k, v) :: fields => by rw [sortFields, sortFields_eq, List.map_cons]

theorem sortFields_keys (fields : List (String × Data ν)) :
    (sortFields fields).map Prod.fst = fields.map Prod.fst := by
  rw [sortFields_eq, List.map_map]
  rfl

/-- Objects have one normal form exactly where they have the same fields, in any order. -/
theorem sortFields_eq_iff {l m : List (String × Data ν)} (hl : (l.map Prod.fst).Nodup) :
    (sortFields l).insertionSort byKey = (sortFields m).insertionSort byKey ↔
      l.length = m.length ∧ ∀ e ∈ l, ∃ b, (e.1, b) ∈ m ∧ sortKeys e.2 = sortKeys b := by
  rw [sorted_eq_iff (by rw [sortFields_keys]; exact hl)]
  constructor
  · intro hperm
    refine ⟨by simpa [sortFields_eq] using hperm.length_eq, fun e he => ?_⟩
    have hmem : (e.1, sortKeys e.2) ∈ sortFields m :=
      hperm.mem_iff.mp (by rw [sortFields_eq]; exact List.mem_map_of_mem he)
    rw [sortFields_eq] at hmem
    obtain ⟨f, hf, heq⟩ := List.mem_map.mp hmem
    obtain ⟨hk, hv⟩ := Prod.mk.inj heq
    exact ⟨f.2, by rw [← hk]; exact hf, hv.symm⟩
  · rintro ⟨hlen, h⟩
    have hnodup : (sortFields l).Nodup :=
      List.Nodup.of_map Prod.fst (by rw [sortFields_keys]; exact hl)
    have hsub : sortFields l ⊆ sortFields m := by
      intro e he
      rw [sortFields_eq] at he ⊢
      obtain ⟨f, hf, rfl⟩ := List.mem_map.mp he
      obtain ⟨b, hb, heq⟩ := h f hf
      exact List.mem_map.mpr ⟨(f.1, b), hb, by rw [heq]⟩
    exact (hnodup.subperm hsub).perm_of_length_le (by simp [sortFields_eq, hlen])

mutual
/-- **The normal form decides**: values are alike where theirs are equal. -/
theorem sortKeys_eq_iff : ∀ {a b : Data ν}, KeysOnce a → KeysOnce b →
    (sortKeys a = sortKeys b ↔ Alike a b)
  | .arr l, .arr m, ha, hb => by
      simp only [sortKeys, Data.arr.injEq, Alike]
      exact sortItems_eq_iff ha hb
  | .obj l, .obj m, ha, hb => by
      simp only [sortKeys, Data.obj.injEq, Alike]
      rw [sortFields_eq_iff ha.1]
      refine and_congr_right fun _ => ?_
      exact sortFields_alike ha.2 (keysOnceFields_forall.mp hb.2)
  | .null, b, _, _ => by cases b <;> simp [sortKeys, Alike]
  | .bool x, b, _, _ => by cases b <;> simp [sortKeys, Alike]
  | .num x, b, _, _ => by cases b <;> simp [sortKeys, Alike]
  | .str x, b, _, _ => by cases b <;> simp [sortKeys, Alike]
  | .arr l, .null, _, _ | .arr l, .bool _, _, _ | .arr l, .num _, _, _ | .arr l, .str _, _, _
  | .arr l, .obj _, _, _ | .obj l, .null, _, _ | .obj l, .bool _, _, _ | .obj l, .num _, _, _
  | .obj l, .str _, _, _ | .obj l, .arr _, _, _ => by simp [sortKeys, Alike]
theorem sortItems_eq_iff : ∀ {l m : List (Data ν)}, KeysOnceItems l → KeysOnceItems m →
    (sortItems l = sortItems m ↔ AlikeItems l m)
  | [], [], _, _ => by simp [sortItems, AlikeItems]
  | [], b :: m, _, _ => by simp [sortItems, AlikeItems]
  | a :: l, [], _, _ => by simp [sortItems, AlikeItems]
  | a :: l, b :: m, hl, hm => by
      simp only [sortItems, List.cons.injEq, AlikeItems]
      exact and_congr (sortKeys_eq_iff hl.1 hm.1) (sortItems_eq_iff hl.2 hm.2)
/-- What the fields have in the other object. -/
theorem sortFields_alike : ∀ {l m : List (String × Data ν)}, KeysOnceFields l →
    (∀ e ∈ m, KeysOnce e.2) →
    ((∀ e ∈ l, ∃ b, (e.1, b) ∈ m ∧ sortKeys e.2 = sortKeys b) ↔ AlikeFields l m)
  | [], m, _, _ => by simp [AlikeFields]
  | (k, a) :: l, m, hl, hm => by
      rw [AlikeFields, List.forall_mem_cons, sortFields_alike hl.2 hm]
      refine and_congr_left fun _ => exists_congr fun b => and_congr_right fun hb => ?_
      exact sortKeys_eq_iff hl.1 (hm _ hb)
end

/-- Canonical texts are equal where the normal forms are. -/
theorem canonical_eq (ht : Literals text) {a b : Data ν} :
    canonical text a = canonical text b ↔ sortKeys a = sortKeys b := by
  refine ⟨fun h => ?_, congrArg (write text)⟩
  have hstop : Stops [] := fun c hc => by cases hc
  exact (write_cancel ht (sortKeys a) (sortKeys b) hstop hstop (congrArg (· ++ []) h)).1

end Data

end RolloutProxy.CanonicalJson
