/-
  File:      RolloutProxy/Lib/Except.lean
  Subject:   INVERSION of computations that can raise: what a successful `do` block tells about
             its parts. Every later proof takes a raising function apart with these lemmas.
-/
import Mathlib.Data.List.Basic
import Mathlib.Data.List.Forall2

namespace RolloutProxy

variable {ε α β : Type}

/-- A sequence that succeeds: its first part did, and the rest on its result. -/
theorem bind_ok {x : Except ε α} {f : α → Except ε β} {b : β} (h : x >>= f = .ok b) :
    ∃ a, x = .ok a ∧ f a = .ok b := by
  cases x with
  | error e => cases h
  | ok a => exact ⟨a, rfl, h⟩

theorem map_ok {x : Except ε α} {f : α → β} {b : β} (h : x.map f = .ok b) :
    ∃ a, x = .ok a ∧ f a = b := by
  cases x with
  | error e => cases h
  | ok a => exact ⟨a, rfl, Except.ok.inj h⟩

@[simp] theorem ok_bind (a : α) (f : α → Except ε β) : (Except.ok a >>= f) = f a := rfl

@[simp] theorem error_bind (e : ε) (f : α → Except ε β) :
    ((Except.error e : Except ε α) >>= f) = .error e := rfl

@[simp] theorem map_ok_eq (a : α) (f : α → β) : (Except.ok a : Except ε α).map f = .ok (f a) := rfl

/-- A check that must hold before the computation goes on. -/
def guardE (p : Bool) (e : ε) : Except ε Unit := if p then .ok () else .error e

@[simp] theorem guardE_ok {p : Bool} {e : ε} {u : Unit} : guardE p e = .ok u ↔ p = true := by
  cases p <;> simp [guardE]

/-- The exception of a computation that raises: its outcome, where only that can be compared. -/
def errorOf : Except ε α → Option ε
  | .error e => some e
  | .ok _ => none

theorem eq_error_of {x : Except ε α} {e : ε} (h : errorOf x = some e) : x = .error e := by
  cases x with
  | error e' => cases h; rfl
  | ok a => cases h

/-! ## Computations that return -/

/-- The computation does not raise. -/
def Returns (x : Except ε α) : Prop := ∃ a, x = .ok a

@[simp] theorem returns_ok (a : α) : Returns (.ok a : Except ε α) := ⟨a, rfl⟩

@[simp] theorem returns_pure (a : α) : Returns (pure a : Except ε α) := ⟨a, rfl⟩

@[simp] theorem not_returns_error (e : ε) : ¬ Returns (.error e : Except ε α) := by
  rintro ⟨a, ha⟩
  cases ha

/-- A sequence returns where its parts do. -/
theorem returns_bind {x : Except ε α} {f : α → Except ε β} :
    Returns (x >>= f) ↔ ∃ a, x = .ok a ∧ Returns (f a) := by
  constructor
  · rintro ⟨b, hb⟩
    obtain ⟨a, ha, hf⟩ := bind_ok hb
    exact ⟨a, ha, b, hf⟩
  · rintro ⟨a, rfl, b, hb⟩
    exact ⟨b, hb⟩

/-- What follows always returns. -/
theorem returns_bind_left {x : Except ε α} {f : α → Except ε β} (h : ∀ a, Returns (f a)) :
    Returns (x >>= f) ↔ Returns x := by
  rw [returns_bind]
  exact ⟨fun ⟨a, ha, _⟩ => ⟨a, ha⟩, fun ⟨a, ha⟩ => ⟨a, ha, h a⟩⟩

/-- What follows returns under one condition, whatever the first part gave. -/
theorem returns_bind_and {x : Except ε α} {f : α → Except ε β} {p : Prop}
    (h : ∀ a, x = .ok a → (Returns (f a) ↔ p)) : Returns (x >>= f) ↔ Returns x ∧ p := by
  rw [returns_bind]
  exact ⟨fun ⟨a, ha, hf⟩ => ⟨⟨a, ha⟩, (h a ha).mp hf⟩,
    fun ⟨⟨a, ha⟩, hp⟩ => ⟨a, ha, (h a ha).mpr hp⟩⟩

/-- A loop returns where each turn does. -/
theorem returns_mapM {f : α → Except ε β} : ∀ {l : List α},
    Returns (l.mapM f) ↔ ∀ a ∈ l, Returns (f a)
  | [] => by simp
  | a :: l => by
      rw [List.mapM_cons, returns_bind, List.forall_mem_cons]
      constructor
      · rintro ⟨b, hb, hrest⟩
        obtain ⟨bs, hbs, -⟩ := returns_bind.mp hrest
        exact ⟨⟨b, hb⟩, returns_mapM.mp ⟨bs, hbs⟩⟩
      · rintro ⟨⟨b, hb⟩, hl⟩
        obtain ⟨bs, hbs⟩ := returns_mapM.mpr hl
        exact ⟨b, hb, returns_bind.mpr ⟨bs, hbs, returns_pure _⟩⟩

/-- Every element of a loop has its result. -/
theorem mapM_mem {f : α → Except ε β} : ∀ {l : List α} {bs : List β}, l.mapM f = .ok bs →
    ∀ a ∈ l, ∃ b ∈ bs, f a = .ok b
  | [], _, _ => by simp
  | a :: l, bs, h => by
      rw [List.mapM_cons] at h
      obtain ⟨b, hb, h⟩ := bind_ok h
      obtain ⟨bs', hbs, h⟩ := bind_ok h
      cases h
      rw [List.forall_mem_cons]
      refine ⟨⟨b, List.mem_cons_self, hb⟩, fun x hx => ?_⟩
      obtain ⟨y, hy, hf⟩ := mapM_mem hbs x hx
      exact ⟨y, List.mem_cons_of_mem _ hy, hf⟩

/-- A loop succeeds where each turn does, and collects the results in order. -/
theorem mapM_ok_iff {f : α → Except ε β} : ∀ {l : List α} {bs : List β},
    l.mapM f = .ok bs ↔ List.Forall₂ (fun a b => f a = .ok b) l bs
  | [], bs => by
      rw [List.mapM_nil, List.forall₂_nil_left_iff]
      exact ⟨fun h => (Except.ok.inj h).symm, fun h => h ▸ rfl⟩
  | a :: l, bs => by
      rw [List.mapM_cons, List.forall₂_cons_left_iff]
      constructor
      · intro h
        obtain ⟨b, hb, h⟩ := bind_ok h
        obtain ⟨rest, hrest, h⟩ := bind_ok h
        cases h
        exact ⟨b, rest, hb, mapM_ok_iff.mp hrest, rfl⟩
      · rintro ⟨b, rest, hb, hrest, rfl⟩
        rw [hb, ok_bind, mapM_ok_iff.mpr hrest]
        rfl

/-! ## Lists related element by element -/

theorem forall₂_left {R : α → β → Prop} {l : List α} {m : List β} (h : List.Forall₂ R l m) :
    ∀ a ∈ l, ∃ b ∈ m, R a b := by
  induction h with
  | nil => exact nofun
  | cons hab _ ih =>
      rw [List.forall_mem_cons]
      refine ⟨⟨_, List.mem_cons_self, hab⟩, fun a ha => ?_⟩
      obtain ⟨b, hb, hr⟩ := ih a ha
      exact ⟨b, List.mem_cons_of_mem _ hb, hr⟩

theorem forall₂_right {R : α → β → Prop} {l : List α} {m : List β} (h : List.Forall₂ R l m) :
    ∀ b ∈ m, ∃ a ∈ l, R a b := by
  induction h with
  | nil => exact nofun
  | cons hab _ ih =>
      rw [List.forall_mem_cons]
      refine ⟨⟨_, List.mem_cons_self, hab⟩, fun b hb => ?_⟩
      obtain ⟨a, ha, hr⟩ := ih b hb
      exact ⟨a, List.mem_cons_of_mem _ ha, hr⟩

/-- One element after the other. -/
theorem forall₂_exists {R : α → β → Prop} : ∀ {l : List α}, (∀ a ∈ l, ∃ b, R a b) →
    ∃ m, List.Forall₂ R l m
  | [], _ => ⟨[], .nil⟩
  | a :: l, h => by
      obtain ⟨⟨b, hb⟩, hl⟩ := List.forall_mem_cons.mp h
      obtain ⟨m, hm⟩ := forall₂_exists hl
      exact ⟨b :: m, .cons hb hm⟩

/-- Two relations in a row. -/
theorem forall₂_comp {γ : Type} {R : α → β → Prop} {S : β → γ → Prop} {T : α → γ → Prop}
    (h : ∀ a b c, R a b → S b c → T a c) {l : List α} {m : List β} {n : List γ}
    (hr : List.Forall₂ R l m) (hs : List.Forall₂ S m n) : List.Forall₂ T l n := by
  induction hr generalizing n with
  | nil =>
      cases hs
      exact .nil
  | cons hab _ ih =>
      cases hs with
      | cons hbc hrest => exact .cons (h _ _ _ hab hbc) (ih hrest)

end RolloutProxy
