/-
  File:      RolloutProxy/Provider/Registry.lean
  Subject:   SHARED LOADS: `ModelRegistry.resolve` (model_registry.py) under concurrent calls, cut
             at its lock sections, the build between them and the future.

  * A call holds a future by the call that created it; it owns the load where that is itself.
  * `Consistent` is the invariant: an entry in `loading` is a load in progress, and a profile with
    a bundle has none.
  * **`registry_shares_loads`**: in every reachable state one load of a profile is in progress at
    most, calls that joined it end as it did, failures leave nothing behind, and behind a success
    there is one bundle for good.
-/
import RolloutProxy.Lib.Dict
import RolloutProxy.Lib.Run

namespace RolloutProxy

/-- Where a call of `resolve` stands, in front of: its first lock section, the result of another's
    load, its build, the lock section behind the build, its own future, its caller. -/
inductive ResolvePc (B E : Type) where
  | entering
  | waiting
  | building
  | loaded (r : Except E B)
  | settled (r : Except E B)
  | ended (r : Except E B)

/-- A call of `resolve` for a model of `profile`. -/
structure ResolveCall (B E : Type) where
  profile : String
  /-- the local variable `loading`: a future, by the call that created it -/
  loading : Option Nat
  pc : ResolvePc B E

/-- A registry of bundles `B`, with its calls in the order they came; `E` are the exceptions. -/
structure ModelRegistry (B E : Type) where
  bundles : Dict String B
  loading : Dict String Nat
  /-- the futures that have a result -/
  futures : Dict Nat (Except E B)
  calls : List (ResolveCall B E)

inductive ResolveEvent (B E : Type) where
  | call (profile : String)
  | look (i : Nat)
  | build (i : Nat) (r : Except E B)
  | settle (i : Nat)
  | publish (i : Nat)
  | receive (i : Nat)

namespace ModelRegistry

variable {B E : Type}

def empty : ModelRegistry B E := ⟨∅, ∅, ∅, []⟩

/-! ## 1. The steps of a call -/

/-- Call `i` goes on as `c`. -/
def put (g : ModelRegistry B E) (i : Nat) (c : ResolveCall B E) : ModelRegistry B E :=
  { g with calls := g.calls.set i c }

/-- The first lock section: the bundle, the load in progress, or a load of its own. -/
def look (g : ModelRegistry B E) (i : Nat) (profile : String) : ModelRegistry B E :=
  match g.bundles.get? profile with
  | some b => g.put i ⟨profile, none, .ended (.ok b)⟩
  | none =>
    match g.loading.get? profile with
    | some f => g.put i ⟨profile, some f, .waiting⟩
    | none => { g.put i ⟨profile, some i, .building⟩ with loading := g.loading.set profile i }

/-- The lock section behind the build: only a bundle is installed. -/
def settle (g : ModelRegistry B E) (i : Nat) (c : ResolveCall B E) (r : Except E B) :
    ModelRegistry B E :=
  { g.put i { c with pc := .settled r } with
    bundles := match r with
      | .ok b => g.bundles.set c.profile b
      | .error _ => g.bundles
    loading := g.loading.erase c.profile }

def step (g : ModelRegistry B E) : ResolveEvent B E → Option (ModelRegistry B E)
  | .call profile => some { g with calls := g.calls ++ [⟨profile, none, .entering⟩] }
  | .look i =>
    match g.calls[i]? with
    | some ⟨profile, _, .entering⟩ => some (g.look i profile)
    | _ => none
  | .build i r =>
    match g.calls[i]? with
    | some ⟨profile, f, .building⟩ => some (g.put i ⟨profile, f, .loaded r⟩)
    | _ => none
  | .settle i =>
    match g.calls[i]? with
    | some ⟨profile, f, .loaded r⟩ => some (g.settle i ⟨profile, f, .loaded r⟩ r)
    | _ => none
  | .publish i =>
    match g.calls[i]? with
    | some ⟨profile, some f, .settled r⟩ =>
      some { g.put i ⟨profile, some f, .ended r⟩ with futures := g.futures.set f r }
    | _ => none
  | .receive i =>
    match g.calls[i]? with
    | some ⟨profile, some f, .waiting⟩ =>
      (g.futures.get? f).map fun r => g.put i ⟨profile, some f, .ended r⟩
    | _ => none

/-- What a step does to the registry, one case for each place a call goes on from. -/
inductive Moves (g : ModelRegistry B E) : ModelRegistry B E → Prop
  | call (profile : String) : Moves g { g with calls := g.calls ++ [⟨profile, none, .entering⟩] }
  | found {i : Nat} {profile : String} {f : Option Nat} {b : B}
      (hc : g.calls[i]? = some ⟨profile, f, .entering⟩) (hb : g.bundles.get? profile = some b) :
      Moves g (g.put i ⟨profile, none, .ended (.ok b)⟩)
  | joined {i f : Nat} {profile : String} {f' : Option Nat}
      (hc : g.calls[i]? = some ⟨profile, f', .entering⟩) (hb : g.bundles.get? profile = none)
      (hl : g.loading.get? profile = some f) : Moves g (g.put i ⟨profile, some f, .waiting⟩)
  | owned {i : Nat} {profile : String} {f : Option Nat}
      (hc : g.calls[i]? = some ⟨profile, f, .entering⟩) (hb : g.bundles.get? profile = none)
      (hl : g.loading.get? profile = none) :
      Moves g { g.put i ⟨profile, some i, .building⟩ with loading := g.loading.set profile i }
  | built {i : Nat} {profile : String} {f : Option Nat} (r : Except E B)
      (hc : g.calls[i]? = some ⟨profile, f, .building⟩) : Moves g (g.put i ⟨profile, f, .loaded r⟩)
  | settled {i : Nat} {profile : String} {f : Option Nat} {r : Except E B}
      (hc : g.calls[i]? = some ⟨profile, f, .loaded r⟩) :
      Moves g (g.settle i ⟨profile, f, .loaded r⟩ r)
  | published {i f : Nat} {profile : String} {r : Except E B}
      (hc : g.calls[i]? = some ⟨profile, some f, .settled r⟩) :
      Moves g { g.put i ⟨profile, some f, .ended r⟩ with futures := g.futures.set f r }
  | received {i f : Nat} {profile : String} {r : Except E B}
      (hc : g.calls[i]? = some ⟨profile, some f, .waiting⟩) (hr : g.futures.get? f = some r) :
      Moves g (g.put i ⟨profile, some f, .ended r⟩)

/-- Every step is one of the moves. -/
theorem moves_of_step {g g' : ModelRegistry B E} {e : ResolveEvent B E} (h : g.step e = some g') :
    Moves g g' := by
  cases e with
  | call profile =>
    cases h
    exact .call profile
  | look i =>
    simp only [step] at h
    split at h
    · next profile f hc =>
      cases h
      unfold look
      split
      · next b hb => exact .found hc hb
      · next hb =>
        split
        · next f' hl => exact .joined hc hb hl
        · next hl => exact .owned hc hb hl
    · cases h
  | build i r =>
    simp only [step] at h
    split at h
    · next hc =>
      cases h
      exact .built r hc
    · cases h
  | settle i =>
    simp only [step] at h
    split at h
    · next hc =>
      cases h
      exact .settled hc
    · cases h
  | publish i =>
    simp only [step] at h
    split at h
    · next hc =>
      cases h
      exact .published hc
    · cases h
  | receive i =>
    simp only [step] at h
    split at h
    · next hc =>
      obtain ⟨r, hr, rfl⟩ := Option.map_eq_some_iff.mp h
      exact .received hc hr
    · cases h

/-- Any interleaving of the calls, from a new registry. -/
def Reached (g : ModelRegistry B E) : Prop := Steps step (fun _ _ _ => True) empty g

end ModelRegistry

/-! ## 2. The invariant -/

namespace ResolveCall

variable {B E : Type}

/-- How the call's load ended, or the one it was given. -/
def outcome (c : ResolveCall B E) : Option (Except E B) :=
  match c.pc with
  | .loaded r => some r
  | .settled r => some r
  | .ended r => some r
  | _ => none

/-- The call's load is the entry in `loading`. -/
def Holds (c : ResolveCall B E) : Prop :=
  match c.pc with
  | .building => True
  | .loaded _ => True
  | _ => False

/-- Call `i` created a future and builds, or has built, its bundle. -/
def Owns (c : ResolveCall B E) (i : Nat) : Prop :=
  c.loading = some i ∧
    match c.pc with
    | .entering => False
    | .waiting => False
    | _ => True

end ResolveCall

namespace ModelRegistry

variable {B E : Type}

/-- What holds of call `i` by the place it stands at. -/
def Placed (g : ModelRegistry B E) (i : Nat) (c : ResolveCall B E) : Prop :=
  match c.pc with
  | .entering => True
  | .waiting => ∃ f o, c.loading = some f ∧ g.calls[f]? = some o ∧ o.profile = c.profile ∧ o.Owns f
  | .building => c.loading = some i ∧ g.loading.get? c.profile = some i
  | .loaded _ => c.loading = some i ∧ g.loading.get? c.profile = some i
  | .settled r => c.loading = some i ∧ ∀ b, r = .ok b → g.bundles.get? c.profile = some b
  | .ended r =>
    (∀ b, r = .ok b → g.bundles.get? c.profile = some b) ∧
      (∀ f, c.loading = some f →
        ∃ o, g.calls[f]? = some o ∧ o.profile = c.profile ∧ o.Owns f ∧ o.outcome = some r) ∧
      (c.loading = some i → g.futures.get? i = some r)

structure Consistent (g : ModelRegistry B E) : Prop where
  placed : ∀ i c, g.calls[i]? = some c → g.Placed i c
  /-- an entry is a load in progress, of a profile without a bundle -/
  listed : ∀ p f, g.loading.get? p = some f → g.bundles.get? p = none ∧
    ∃ o, g.calls[f]? = some o ∧ o.profile = p ∧ o.Holds
  /-- a bundle is the result of a build -/
  cached : ∀ p b, g.bundles.get? p = some b →
    ∃ (i : Nat) (o : ResolveCall B E), g.calls[i]? = some o ∧ o.profile = p ∧ o.Owns i ∧
      o.outcome = some (.ok b)
  /-- a future has the result of the call that created it -/
  resolved : ∀ f r, g.futures.get? f = some r → ∃ o, g.calls[f]? = some o ∧ o.Owns f ∧ o.pc = .ended r

/-- What stays: profiles, owners, outcomes, bundles and results. -/
structure Keeps (g g' : ModelRegistry B E) : Prop where
  calls : ∀ (f : Nat) (o : ResolveCall B E), g.calls[f]? = some o →
    ∃ o' : ResolveCall B E, g'.calls[f]? = some o' ∧ o'.profile = o.profile ∧
      (o.Owns f → o'.Owns f) ∧ ∀ r, o.outcome = some r → o'.outcome = some r
  bundles : ∀ p b, g.bundles.get? p = some b → g'.bundles.get? p = some b
  futures : ∀ f r, g.futures.get? f = some r → g'.futures.get? f = some r

theorem Keeps.refl (g : ModelRegistry B E) : Keeps g g :=
  ⟨fun _ o ho => ⟨o, ho, rfl, id, fun _ => id⟩, fun _ _ => id, fun _ _ => id⟩

theorem Keeps.trans {g g' g'' : ModelRegistry B E} (h : Keeps g g') (h' : Keeps g' g'') :
    Keeps g g'' := by
  refine ⟨fun f o ho => ?_, fun p b hb => h'.bundles p b (h.bundles p b hb),
    fun f r hr => h'.futures f r (h.futures f r hr)⟩
  obtain ⟨o₁, ho₁, hp₁, howns₁, hr₁⟩ := h.calls f o ho
  obtain ⟨o₂, ho₂, hp₂, howns₂, hr₂⟩ := h'.calls f o₁ ho₁
  exact ⟨o₂, ho₂, hp₂.trans hp₁, fun w => howns₂ (howns₁ w), fun r hr => hr₂ r (hr₁ r hr)⟩

/-- A call keeps its place where its entry stays. -/
theorem Placed.keep {g g' : ModelRegistry B E} {i : Nat} {c : ResolveCall B E} (h : g.Placed i c)
    (hk : Keeps g g') (hl : c.Holds → g'.loading.get? c.profile = some i) : g'.Placed i c := by
  obtain ⟨p, f, pc⟩ := c
  cases pc with
  | entering => trivial
  | waiting =>
    obtain ⟨f', o, hf, ho, hp, howns⟩ := h
    obtain ⟨o', ho', hp', howns', -⟩ := hk.calls f' o ho
    exact ⟨f', o', hf, ho', hp'.trans hp, howns' howns⟩
  | building => exact ⟨h.1, hl trivial⟩
  | loaded r => exact ⟨h.1, hl trivial⟩
  | settled r => exact ⟨h.1, fun b hb => hk.bundles _ _ (h.2 b hb)⟩
  | ended r =>
    refine ⟨fun b hb => hk.bundles _ _ (h.1 b hb), fun f' hf => ?_,
      fun hf => hk.futures _ _ (h.2.2 hf)⟩
    obtain ⟨o, ho, hp, howns, hr⟩ := h.2.1 f' hf
    obtain ⟨o', ho', hp', howns', hr'⟩ := hk.calls f' o ho
    exact ⟨o', ho', hp'.trans hp, howns' howns, hr' r hr⟩

theorem consistent_empty : Consistent (empty : ModelRegistry B E) where
  placed _ _ h := by cases h
  listed _ _ h := by cases h
  cached _ _ h := by cases h
  resolved _ _ h := by cases h

/-! ## 3. Every move keeps it -/

section Put

variable {g : ModelRegistry B E} {i : Nat} {c c' : ResolveCall B E}

theorem get_put_self (hc : g.calls[i]? = some c) : (g.put i c').calls[i]? = some c' := by
  obtain ⟨hlt, -⟩ := List.getElem?_eq_some_iff.mp hc
  exact List.getElem?_set_self hlt

theorem get_put_ne {j : Nat} (h : j ≠ i) : (g.put i c').calls[j]? = g.calls[j]? :=
  List.getElem?_set_ne (Ne.symm h)

/-- The calls of a registry where call `i` went on. -/
theorem get_put_cases {j : Nat} {d : ResolveCall B E} (h : (g.put i c').calls[j]? = some d) :
    j = i ∧ d = c' ∨ j ≠ i ∧ g.calls[j]? = some d := by
  by_cases hj : j = i
  · subst hj
    refine .inl ⟨rfl, ?_⟩
    have hlt : j < g.calls.length := by
      have := (List.getElem?_eq_some_iff.mp h).1
      simpa [put] using this
    rw [put, List.getElem?_set_self hlt] at h
    exact (Option.some.inj h).symm
  · exact .inr ⟨hj, get_put_ne hj ▸ h⟩

/-- A registry keeps what its calls have, where the one that goes on does. -/
theorem keeps_calls {g' : ModelRegistry B E} (hcalls : g'.calls = (g.put i c').calls)
    (hc : g.calls[i]? = some c) (hp : c'.profile = c.profile) (howns : c.Owns i → c'.Owns i)
    (hr : ∀ r, c.outcome = some r → c'.outcome = some r) :
    ∀ (f : Nat) (o : ResolveCall B E), g.calls[f]? = some o →
      ∃ o' : ResolveCall B E, g'.calls[f]? = some o' ∧ o'.profile = o.profile ∧
        (o.Owns f → o'.Owns f) ∧ ∀ r, o.outcome = some r → o'.outcome = some r := by
  intro f o ho
  rw [hcalls]
  by_cases hf : f = i
  · subst hf
    rw [hc] at ho
    cases ho
    exact ⟨c', get_put_self hc, hp, howns, hr⟩
  · exact ⟨o, (get_put_ne hf).trans ho, rfl, id, fun _ => id⟩

/-- A call that holds an entry holds its profile's. -/
theorem Placed.holds {j : Nat} {d : ResolveCall B E} (h : g.Placed j d) (hd : d.Holds) :
    d.loading = some j ∧ g.loading.get? d.profile = some j := by
  obtain ⟨p, f, pc⟩ := d
  cases pc with
  | building => exact h
  | loaded r => exact h
  | entering | waiting | settled r | ended r => exact hd.elim

/-- **A call that goes on by itself** keeps the invariant: it holds an entry as it did, and has not
    ended before. -/
theorem Consistent.put (hg : Consistent g) (hc : g.calls[i]? = some c)
    (hp : c'.profile = c.profile) (howns : c.Owns i → c'.Owns i)
    (hr : ∀ r, c.outcome = some r → c'.outcome = some r) (hholds : c'.Holds ↔ c.Holds)
    (hopen : ∀ r, c.pc ≠ .ended r)
    (hplaced : Keeps g (g.put i c') → (g.put i c').Placed i c') :
    Keeps g (g.put i c') ∧ Consistent (g.put i c') := by
  have hk : Keeps g (g.put i c') :=
    ⟨keeps_calls rfl hc hp howns hr, fun _ _ => id, fun _ _ => id⟩
  refine ⟨hk, ⟨fun j d hd => ?_, fun p f hf => ?_, fun p b hb => ?_, fun f r hf => ?_⟩⟩
  · rcases get_put_cases hd with ⟨rfl, rfl⟩ | ⟨-, hd⟩
    · exact hplaced hk
    · exact (hg.placed j d hd).keep hk fun hh => ((hg.placed j d hd).holds hh).2
  · obtain ⟨hnone, o, ho, hop, hoh⟩ := hg.listed p f hf
    refine ⟨hnone, ?_⟩
    by_cases hfi : f = i
    · subst hfi
      rw [hc] at ho
      cases ho
      exact ⟨c', get_put_self hc, hp.trans hop, hholds.mpr hoh⟩
    · exact ⟨o, (get_put_ne hfi).trans ho, hop, hoh⟩
  · obtain ⟨j, o, ho, hop, hoo, hor⟩ := hg.cached p b hb
    obtain ⟨o', ho', hop', hoo', hor'⟩ := hk.calls j o ho
    exact ⟨j, o', ho', hop'.trans hop, hoo' hoo, hor' _ hor⟩
  · obtain ⟨o, ho, hoo, hended⟩ := hg.resolved f r hf
    have hfi : f ≠ i := by
      rintro rfl
      rw [hc] at ho
      cases ho
      exact hopen r hended
    exact ⟨o, (get_put_ne hfi).trans ho, hoo, hended⟩

end Put

section Moves

variable {g g' : ModelRegistry B E} {i : Nat} {profile : String}

/-- A call arrives. -/
theorem Consistent.call (hg : Consistent g) (profile : String) :
    Keeps g { g with calls := g.calls ++ [⟨profile, none, .entering⟩] } ∧
      Consistent { g with calls := g.calls ++ [⟨profile, none, .entering⟩] } := by
  have hold : ∀ {f : Nat} {o : ResolveCall B E}, g.calls[f]? = some o →
      (g.calls ++ [⟨profile, none, .entering⟩])[f]? = some o := fun h =>
    (List.getElem?_append_left (List.getElem?_eq_some_iff.mp h).1).trans h
  have hk : Keeps g { g with calls := g.calls ++ [⟨profile, none, .entering⟩] } :=
    ⟨fun f o ho => ⟨o, hold ho, rfl, id, fun _ => id⟩, fun _ _ => id, fun _ _ => id⟩
  refine ⟨hk, ⟨fun j d hd => ?_, fun p f hf => ?_, fun p b hb => ?_, fun f r hf => ?_⟩⟩
  · rcases Nat.lt_or_ge j g.calls.length with hlt | hge
    · rw [List.getElem?_append_left hlt] at hd
      exact (hg.placed j d hd).keep hk fun hh => ((hg.placed j d hd).holds hh).2
    · rw [List.getElem?_append_right hge, List.getElem?_singleton] at hd
      split at hd
      · cases hd
        trivial
      · cases hd
  · obtain ⟨hnone, o, ho, hop, hoh⟩ := hg.listed p f hf
    exact ⟨hnone, o, hold ho, hop, hoh⟩
  · obtain ⟨j, o, ho, hrest⟩ := hg.cached p b hb
    exact ⟨j, o, hold ho, hrest⟩
  · obtain ⟨o, ho, hrest⟩ := hg.resolved f r hf
    exact ⟨o, hold ho, hrest⟩

/-- A call of a profile without a bundle or a load starts one. -/
theorem Consistent.own (hg : Consistent g) {f : Option Nat}
    (hc : g.calls[i]? = some ⟨profile, f, .entering⟩) (hb : g.bundles.get? profile = none)
    (hl : g.loading.get? profile = none) :
    Keeps g { g.put i ⟨profile, some i, .building⟩ with loading := g.loading.set profile i } ∧
      Consistent { g.put i ⟨profile, some i, .building⟩ with
        loading := g.loading.set profile i } := by
  have hk : Keeps g { g.put i ⟨profile, some i, .building⟩ with
      loading := g.loading.set profile i } :=
    ⟨keeps_calls rfl hc rfl (fun h => h.2.elim) nofun, fun _ _ => id, fun _ _ => id⟩
  refine ⟨hk, ⟨fun j d hd => ?_, fun p f hf => ?_, fun p b hp => ?_, fun f r hf => ?_⟩⟩
  · rcases get_put_cases hd with ⟨rfl, rfl⟩ | ⟨-, hd⟩
    · exact ⟨rfl, Dict.get?_set_self _ _ _⟩
    · refine (hg.placed j d hd).keep hk fun hh => ?_
      have hj := ((hg.placed j d hd).holds hh).2
      have hne : d.profile ≠ profile := fun heq => by
        rw [heq, hl] at hj
        cases hj
      exact (Dict.get?_set_ne _ _ hne).trans hj
  · by_cases hp : p = profile
    · subst hp
      rw [Dict.get?_set_self] at hf
      cases hf
      exact ⟨hb, _, get_put_self hc, rfl, trivial⟩
    · rw [Dict.get?_set_ne _ _ hp] at hf
      obtain ⟨hnone, o, ho, hop, hoh⟩ := hg.listed p f hf
      have hfi : f ≠ i := by
        rintro rfl
        rw [hc] at ho
        cases ho
        exact hoh
      exact ⟨hnone, o, (get_put_ne hfi).trans ho, hop, hoh⟩
  · obtain ⟨j, o, ho, hop, hoo, hor⟩ := hg.cached p b hp
    obtain ⟨o', ho', hop', hoo', hor'⟩ := hk.calls j o ho
    exact ⟨j, o', ho', hop'.trans hop, hoo' hoo, hor' _ hor⟩
  · obtain ⟨o, ho, hoo, hended⟩ := hg.resolved f r hf
    have hfi : f ≠ i := by
      rintro rfl
      rw [hc] at ho
      cases ho
      cases hended
    exact ⟨o, (get_put_ne hfi).trans ho, hoo, hended⟩

/-- A load leaves the registry, and its bundle stays there. -/
theorem Consistent.settle (hg : Consistent g) {f : Option Nat} {r : Except E B}
    (hc : g.calls[i]? = some ⟨profile, f, .loaded r⟩) :
    Keeps g (g.settle i ⟨profile, f, .loaded r⟩ r) ∧
      Consistent (g.settle i ⟨profile, f, .loaded r⟩ r) := by
  obtain ⟨hf, hl⟩ := hg.placed i _ hc
  simp only at hf hl
  subst hf
  have hnone := (hg.listed profile i hl).1
  have hbundles : ∀ p b, (g.settle i ⟨profile, some i, .loaded r⟩ r).bundles.get? p = some b ↔
      g.bundles.get? p = some b ∨ p = profile ∧ r = .ok b := by
    intro p b
    cases r with
    | error e =>
      simp only [ModelRegistry.settle, reduceCtorEq, and_false, or_false]
    | ok b' =>
      simp only [ModelRegistry.settle, Dict.get?_set]
      by_cases hp : p = profile
      · subst hp
        rw [if_pos rfl, hnone]
        simp
      · simp [hp]
  have hloading : ∀ p, (g.settle i ⟨profile, some i, .loaded r⟩ r).loading.get? p =
      if p = profile then none else g.loading.get? p := fun p => Dict.get?_erase _ _ _
  have hk : Keeps g (g.settle i ⟨profile, some i, .loaded r⟩ r) :=
    ⟨keeps_calls rfl hc rfl (fun _ => ⟨rfl, trivial⟩) (fun _ => id),
      fun p b hb => (hbundles p b).mpr (.inl hb), fun _ _ => id⟩
  refine ⟨hk, ⟨fun j d hd => ?_, fun p f hf => ?_, fun p b hb => ?_, fun f r hf => ?_⟩⟩
  · rcases get_put_cases hd with ⟨rfl, rfl⟩ | ⟨hj, hd⟩
    · exact ⟨rfl, fun b hb => (hbundles profile b).mpr (.inr ⟨rfl, hb⟩)⟩
    · refine (hg.placed j d hd).keep hk fun hh => ?_
      have hjl := ((hg.placed j d hd).holds hh).2
      have hne : d.profile ≠ profile := fun heq => by
        rw [heq, hl] at hjl
        exact hj (Option.some.inj hjl).symm
      rw [hloading, if_neg hne]
      exact hjl
  · -- another profile's load goes on
    rw [hloading] at hf
    split at hf
    · cases hf
    · next hp =>
      obtain ⟨hpn, o, ho, hop, hoh⟩ := hg.listed p f hf
      have hfi : f ≠ i := by
        rintro rfl
        rw [hc] at ho
        cases ho
        exact hp hop.symm
      refine ⟨?_, o, (get_put_ne hfi).trans ho, hop, hoh⟩
      cases hb : (g.settle i ⟨profile, some i, .loaded r⟩ r).bundles.get? p with
      | none => rfl
      | some b =>
        rcases (hbundles p b).mp hb with hb | ⟨hb, -⟩
        · rw [hpn] at hb
          cases hb
        · exact absurd hb hp
  · -- a bundle was cached before, or is the one that was loaded
    rcases (hbundles p b).mp hb with hb | ⟨rfl, rfl⟩
    · obtain ⟨j, o, ho, hop, hoo, hor⟩ := hg.cached p b hb
      obtain ⟨o', ho', hop', hoo', hor'⟩ := hk.calls j o ho
      exact ⟨j, o', ho', hop'.trans hop, hoo' hoo, hor' _ hor⟩
    · exact ⟨i, _, get_put_self hc, rfl, ⟨rfl, trivial⟩, rfl⟩
  · obtain ⟨o, ho, hoo, hended⟩ := hg.resolved f _ hf
    have hfi : f ≠ i := by
      rintro rfl
      rw [hc] at ho
      cases ho
      cases hended
    exact ⟨o, (get_put_ne hfi).trans ho, hoo, hended⟩

/-- A load gets its result, and its call ends with it. -/
theorem Consistent.publish (hg : Consistent g) {f : Nat} {r : Except E B}
    (hc : g.calls[i]? = some ⟨profile, some f, .settled r⟩) :
    Keeps g { g.put i ⟨profile, some f, .ended r⟩ with futures := g.futures.set f r } ∧
      Consistent { g.put i ⟨profile, some f, .ended r⟩ with futures := g.futures.set f r } := by
  obtain ⟨hf, hbundle⟩ := hg.placed i _ hc
  simp only [Option.some.injEq] at hf hbundle
  subst hf
  have hk : Keeps g { g.put f ⟨profile, some f, .ended r⟩ with futures := g.futures.set f r } := by
    refine ⟨keeps_calls rfl hc rfl (fun _ => ⟨rfl, trivial⟩) (fun _ => id), fun _ _ => id,
      fun f' r' hf' => ?_⟩
    have hne : f' ≠ f := by
      rintro rfl
      obtain ⟨o, ho, -, hended⟩ := hg.resolved f' r' hf'
      rw [hc] at ho
      cases ho
      cases hended
    exact (Dict.get?_set_ne _ _ hne).trans hf'
  refine ⟨hk, ⟨fun j d hd => ?_, fun p f' hf' => ?_, fun p b hb => ?_, fun f' r' hf' => ?_⟩⟩
  · rcases get_put_cases hd with ⟨rfl, rfl⟩ | ⟨-, hd⟩
    · refine ⟨hbundle, fun f' hf' => ?_, fun _ => Dict.get?_set_self _ _ _⟩
      cases hf'
      exact ⟨_, get_put_self hc, rfl, ⟨rfl, trivial⟩, rfl⟩
    · exact (hg.placed j d hd).keep hk fun hh => ((hg.placed j d hd).holds hh).2
  · obtain ⟨hnone, o, ho, hop, hoh⟩ := hg.listed p f' hf'
    have hne : f' ≠ f := by
      rintro rfl
      rw [hc] at ho
      cases ho
      exact hoh
    exact ⟨hnone, o, (get_put_ne hne).trans ho, hop, hoh⟩
  · obtain ⟨j, o, ho, hop, hoo, hor⟩ := hg.cached p b hb
    obtain ⟨o', ho', hop', hoo', hor'⟩ := hk.calls j o ho
    exact ⟨j, o', ho', hop'.trans hop, hoo' hoo, hor' _ hor⟩
  · by_cases hne : f' = f
    · subst hne
      rw [Dict.get?_set_self] at hf'
      cases hf'
      exact ⟨_, get_put_self hc, ⟨rfl, trivial⟩, rfl⟩
    · rw [Dict.get?_set_ne _ _ hne] at hf'
      obtain ⟨o, ho, hoo, hended⟩ := hg.resolved f' r' hf'
      exact ⟨o, (get_put_ne hne).trans ho, hoo, hended⟩

/-- **Every step keeps the invariant**, and what was there before it. -/
theorem Moves.consistent (h : Moves g g') (hg : Consistent g) : Keeps g g' ∧ Consistent g' := by
  cases h with
  | call profile => exact hg.call profile
  | found hc hb =>
    refine hg.put hc rfl (fun h => h.2.elim) nofun Iff.rfl nofun fun _ => ⟨?_, nofun, nofun⟩
    rintro b ⟨⟩
    exact hb
  | @joined i f profile f' hc hb hl =>
    refine hg.put hc rfl (fun h => h.2.elim) nofun Iff.rfl nofun fun hk => ?_
    obtain ⟨-, o, ho, hop, hoh⟩ := hg.listed _ _ hl
    have howns : o.Owns f := by
      refine ⟨((hg.placed _ o ho).holds hoh).1, ?_⟩
      revert hoh
      unfold ResolveCall.Holds
      cases o.pc with
      | building | loaded r => exact fun _ => trivial
      | entering | waiting | settled r | ended r => exact False.elim
    obtain ⟨o', ho', hop', hoo', -⟩ := hk.calls _ o ho
    exact ⟨_, o', rfl, ho', hop'.trans hop, hoo' howns⟩
  | owned hc hb hl => exact hg.own hc hb hl
  | built r hc =>
    exact hg.put hc rfl (fun h => ⟨h.1, trivial⟩) nofun Iff.rfl nofun fun _ => hg.placed _ _ hc
  | settled hc => exact hg.settle hc
  | published hc => exact hg.publish hc
  | @received i f profile r hc hr =>
    refine hg.put hc rfl (fun h => h.2.elim) nofun Iff.rfl nofun fun hk => ?_
    obtain ⟨f', o, hf', ho, hop, hoo⟩ := hg.placed i _ hc
    cases hf'
    obtain ⟨o₂, ho₂, hoo₂, hended⟩ := hg.resolved f r hr
    rw [ho] at ho₂
    cases ho₂
    have hserved := hg.placed f o ho
    obtain ⟨o', ho', hop', hoo', hor'⟩ := hk.calls f o ho
    have hr' : o.outcome = some r := by
      unfold ResolveCall.outcome
      rw [hended]
    unfold Placed at hserved
    rw [hended] at hserved
    refine ⟨fun b hb => ?_, fun f' hf' => ?_, fun hf' => ?_⟩
    · rw [hop] at hserved
      exact hserved.1 b hb
    · cases hf'
      exact ⟨o', ho', hop'.trans hop, hoo' hoo, hor' r hr'⟩
    · cases hf'
      exact hr

end Moves

/-! ## 4. Every interleaving -/

section Runs

variable {g g' : ModelRegistry B E}

theorem Reached.consistent (h : Reached g) : Consistent g :=
  Steps.inv h consistent_empty fun _ _ _ ht hstep _ => ((moves_of_step hstep).consistent ht).2

/-- A run of a consistent registry. -/
theorem run_keeps (h : Steps step (fun _ _ _ => True) g g') (hg : Consistent g) :
    Keeps g g' ∧ Consistent g' :=
  Steps.inv (I := fun t => Keeps g t ∧ Consistent t) h ⟨Keeps.refl g, hg⟩ fun _ _ _ ht hstep _ =>
    have hmove := (moves_of_step hstep).consistent ht.2
    ⟨ht.1.trans hmove.1, hmove.2⟩

/-- A build that succeeded has its bundle, or the entry of its profile still. -/
theorem Consistent.built (hg : Consistent g) {i : Nat} {c : ResolveCall B E} {b : B}
    (hc : g.calls[i]? = some c) (howns : c.Owns i) (hb : c.outcome = some (.ok b)) :
    g.bundles.get? c.profile = some b ∨ g.loading.get? c.profile = some i := by
  have hplaced := hg.placed i c hc
  obtain ⟨p, f, pc⟩ := c
  cases pc with
  | loaded r => exact .inr hplaced.2
  | settled r =>
    cases hb
    exact .inl (hplaced.2 b rfl)
  | ended r =>
    cases hb
    exact .inl (hplaced.1 b rfl)
  | entering | waiting | building => cases hb

/-- **A build starts** only of a profile without a bundle and without a load. -/
theorem Moves.owner (hg : Consistent g) (h : Moves g g') {j : Nat} {d : ResolveCall B E}
    (hd : g'.calls[j]? = some d) (howns : d.Owns j) :
    (∃ d₀, g.calls[j]? = some d₀ ∧ d₀.Owns j ∧ d₀.profile = d.profile) ∨
      g.bundles.get? d.profile = none ∧ g.loading.get? d.profile = none := by
  have hput : ∀ {i : Nat} {c c' : ResolveCall B E}, g.calls[i]? = some c →
      (g.put i c').calls[j]? = some d → c'.profile = c.profile → (c'.Owns i → c.Owns i) →
        ∃ d₀, g.calls[j]? = some d₀ ∧ d₀.Owns j ∧ d₀.profile = d.profile := by
    intro i c c' hc hd hp hback
    rcases get_put_cases hd with ⟨rfl, rfl⟩ | ⟨-, hd⟩
    · exact ⟨c, hc, hback howns, hp.symm⟩
    · exact ⟨d, hd, howns, rfl⟩
  cases h with
  | call profile =>
    refine .inl ?_
    rcases Nat.lt_or_ge j g.calls.length with hlt | hge
    · rw [List.getElem?_append_left hlt] at hd
      exact ⟨d, hd, howns, rfl⟩
    · rw [List.getElem?_append_right hge, List.getElem?_singleton] at hd
      split at hd
      · cases hd
        cases howns.1
      · cases hd
  | found hc _ => exact .inl (hput hc hd rfl fun h => by cases h.1)
  | joined hc _ _ => exact .inl (hput hc hd rfl fun h => h.2.elim)
  | owned hc hb hl =>
    rcases get_put_cases hd with ⟨rfl, rfl⟩ | ⟨-, hd⟩
    · exact .inr ⟨hb, hl⟩
    · exact .inl ⟨d, hd, howns, rfl⟩
  | built r hc => exact .inl (hput hc hd rfl fun h => ⟨h.1, trivial⟩)
  | settled hc => exact .inl (hput hc hd rfl fun h => ⟨h.1, trivial⟩)
  | published hc => exact .inl (hput hc hd rfl fun h => ⟨h.1, trivial⟩)
  | @received i f profile r hc hr =>
    refine .inl ?_
    rcases get_put_cases hd with ⟨rfl, rfl⟩ | ⟨-, hd⟩
    · -- a call that waits for its own future would have to own it already
      obtain ⟨f', o, hf', ho, -, hoo⟩ := hg.placed j _ hc
      cases hf'
      cases howns.1
      rw [hc] at ho
      cases ho
      exact hoo.2.elim
    · exact ⟨d, hd, howns, rfl⟩

/-- **Behind a success no build of the profile starts.** -/
theorem no_later_build (h : Steps step (fun _ _ _ => True) g g') (hg : Consistent g) {i : Nat}
    {c : ResolveCall B E} {b : B} (hc : g.calls[i]? = some c) (howns : c.Owns i)
    (hb : c.outcome = some (.ok b)) :
    ∀ (j : Nat) (d : ResolveCall B E), g'.calls[j]? = some d → d.profile = c.profile → d.Owns j →
      ∃ d₀ : ResolveCall B E, g.calls[j]? = some d₀ ∧ d₀.Owns j := by
  induction h with
  | start => exact fun j d hd _ hown => ⟨d, hd, hown⟩
  | @tail t u e hrun hstep _ ih =>
    intro j d hd hp hown
    obtain ⟨hkeeps, ht⟩ := run_keeps hrun hg
    rcases (moves_of_step hstep).owner ht hd hown with ⟨d₀, hd₀, hown₀, hp₀⟩ | ⟨hnob, hnol⟩
    · exact ih j d₀ hd₀ (hp₀.trans hp) hown₀
    · obtain ⟨c', hc', hcp, hco, hcr⟩ := hkeeps.calls i c hc
      rcases ht.built hc' (hco howns) (hcr _ hb) with hb' | hl'
      · rw [hcp, ← hp, hnob] at hb'
        cases hb'
      · rw [hcp, ← hp, hnol] at hl'
        cases hl'

/-- A call that waits can take its result, or the load it waits for is still being built, settled or
    published. -/
theorem Consistent.progress (hg : Consistent g) {i f : Nat} {c : ResolveCall B E}
    (hc : g.calls[i]? = some c) (hpc : c.pc = .waiting) (hf : c.loading = some f) :
    (∃ r, g.step (.receive i) = some (g.put i ⟨c.profile, some f, .ended r⟩)) ∨
      ∃ o, g.calls[f]? = some o ∧ o.Owns f ∧
        (o.pc = .building ∨ (∃ r, o.pc = .loaded r) ∨ ∃ r, o.pc = .settled r) := by
  obtain ⟨p, f', pc⟩ := c
  cases hpc
  cases hf
  obtain ⟨f', o, hf', ho, -, hoo⟩ := hg.placed i _ hc
  cases hf'
  have hplaced := hg.placed f o ho
  unfold Placed at hplaced
  cases hpc : o.pc with
  | entering | waiting =>
    have hown := hoo.2
    rw [hpc] at hown
    exact hown.elim
  | building => exact .inr ⟨o, ho, hoo, .inl hpc⟩
  | loaded r => exact .inr ⟨o, ho, hoo, .inr (.inl ⟨r, hpc⟩)⟩
  | settled r => exact .inr ⟨o, ho, hoo, .inr (.inr ⟨r, hpc⟩)⟩
  | ended r =>
    rw [hpc] at hplaced
    refine .inl ⟨r, ?_⟩
    simp only [step, hc, hplaced.2.2 hoo.1, Option.map_some]

/-- What concurrent calls of `resolve` can rely on. -/
structure SharesLoads (g : ModelRegistry B E) : Prop where
  /-- no two builds of a profile are in progress -/
  one_build : ∀ (i j : Nat) (c d : ResolveCall B E), g.calls[i]? = some c → g.calls[j]? = some d →
    c.pc = .building → d.pc = .building → c.profile = d.profile → i = j
  /-- a call with a load ends as that load did -/
  ends_alike : ∀ (i f : Nat) (c : ResolveCall B E) (r : Except E B), g.calls[i]? = some c →
    c.loading = some f → c.pc = .ended r →
      ∃ o : ResolveCall B E, g.calls[f]? = some o ∧ o.Owns f ∧ o.outcome = some r
  /-- a call that waits can go on, or its load is being built, settled or published -/
  waits_for_load : ∀ (i f : Nat) (c : ResolveCall B E), g.calls[i]? = some c →
    c.pc = .waiting → c.loading = some f →
      (∃ r, g.step (.receive i) = some (g.put i ⟨c.profile, some f, .ended r⟩)) ∨
      ∃ o : ResolveCall B E, g.calls[f]? = some o ∧ o.Owns f ∧
        (o.pc = .building ∨ (∃ r, o.pc = .loaded r) ∨ ∃ r, o.pc = .settled r)
  /-- a load that failed has left no entry -/
  failed_unlisted : ∀ (i : Nat) (c : ResolveCall B E) (e : E), g.calls[i]? = some c →
    c.pc = .settled (.error e) ∨ c.pc = .ended (.error e) → ∀ p, g.loading.get? p ≠ some i
  /-- what is cached is what a build returned -/
  cached_built : ∀ (p : String) (b : B), g.bundles.get? p = some b →
    ∃ (i : Nat) (o : ResolveCall B E), g.calls[i]? = some o ∧ o.profile = p ∧ o.Owns i ∧
      o.outcome = some (.ok b)
  /-- without a bundle and a load the next call builds -/
  builds_again : ∀ (i : Nat) (c : ResolveCall B E), g.calls[i]? = some c → c.pc = .entering →
    g.bundles.get? c.profile = none → g.loading.get? c.profile = none →
      g.step (.look i) = some { g.put i ⟨c.profile, some i, .building⟩ with
        loading := g.loading.set c.profile i }
  /-- behind a success no build of the profile starts -/
  no_later_build : ∀ (i : Nat) (c : ResolveCall B E) (b : B) (g' : ModelRegistry B E),
    g.calls[i]? = some c → c.Owns i → c.outcome = some (.ok b) →
      Steps step (fun _ _ _ => True) g g' → ∀ (j : Nat) (d : ResolveCall B E),
        g'.calls[j]? = some d → d.profile = c.profile → d.Owns j →
          ∃ d₀ : ResolveCall B E, g.calls[j]? = some d₀ ∧ d₀.Owns j
  /-- all calls that succeed return one bundle -/
  one_bundle : ∀ (i j : Nat) (c d : ResolveCall B E) (b b' : B), g.calls[i]? = some c →
    g.calls[j]? = some d → c.profile = d.profile → c.pc = .ended (.ok b) →
      d.pc = .ended (.ok b') → b = b'

/-- **One tokenizer load per profile**, in every state that any interleaving of calls reaches. -/
theorem registry_shares_loads (h : Reached g) : SharesLoads g where
  one_build := by
    intro i j c d hc hd hbc hbd hp
    have hci := h.consistent.placed i c hc
    have hdj := h.consistent.placed j d hd
    unfold Placed at hci hdj
    rw [hbc] at hci
    rw [hbd] at hdj
    have hsame := hci.2
    rw [hp, hdj.2] at hsame
    exact (Option.some.inj hsame).symm
  ends_alike := by
    intro i f c r hc hf hr
    have hci := h.consistent.placed i c hc
    unfold Placed at hci
    rw [hr] at hci
    obtain ⟨o, ho, -, hoo, hor⟩ := hci.2.1 f hf
    exact ⟨o, ho, hoo, hor⟩
  waits_for_load := fun i f c hc hw hf => h.consistent.progress hc hw hf
  failed_unlisted := by
    intro i c e hc hpc p hl
    obtain ⟨-, o, ho, -, hoh⟩ := h.consistent.listed p i hl
    rw [hc] at ho
    cases ho
    unfold ResolveCall.Holds at hoh
    rcases hpc with hpc | hpc <;> rw [hpc] at hoh <;> exact hoh
  cached_built := fun p b hb => h.consistent.cached p b hb
  builds_again := by
    intro i c hc hpc hb hl
    obtain ⟨p, f, pc⟩ := c
    cases hpc
    simp only [step, hc, look, hb, hl]
  no_later_build := fun i c b g' hc hown hb hrun =>
    ModelRegistry.no_later_build hrun h.consistent hc hown hb
  one_bundle := by
    intro i j c d b b' hc hd hp hbc hbd
    have hci := h.consistent.placed i c hc
    have hdj := h.consistent.placed j d hd
    unfold Placed at hci hdj
    rw [hbc] at hci
    rw [hbd] at hdj
    have hsame := hci.1 b rfl
    rw [hp, hdj.1 b' rfl] at hsame
    exact (Option.some.inj hsame).symm

/-- One call loads and fails, two more share a load that succeeds. -/
def sharedRun : List (ResolveEvent String String) :=
  [.call "p", .look 0, .build 0 (.error "disk"), .settle 0, .call "p", .look 1, .call "p", .look 2,
    .publish 0, .build 1 (.ok "bundle"), .settle 1, .publish 1, .receive 2]

theorem registry_shares_loads_run :
    ∃ g : ModelRegistry String String, Reached g ∧ SharesLoads g ∧
      g.calls[2]? = some ⟨"p", some 1, .ended (.ok "bundle")⟩ := by
  have hrun : (exec step (fun _ _ _ => true) empty sharedRun).map (fun g => g.calls[2]?) =
      some (some ⟨"p", some 1, .ended (.ok "bundle")⟩) := rfl
  obtain ⟨g, hg, hcall⟩ := Option.map_eq_some_iff.mp hrun
  have hreached : Reached g := (exec_steps hg).mono fun _ _ _ _ => trivial
  exact ⟨g, hreached, registry_shares_loads hreached, hcall⟩

end Runs

end ModelRegistry

end RolloutProxy
