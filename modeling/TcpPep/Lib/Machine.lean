import Mathlib.Logic.Basic

/-!
Machines driven by events: a start state and a partial step function. An event that is not enabled
has no successor.

* `Reach m ok s`: some run, every step of which meets the side condition `ok`, ends in `s`;
* `Reach.invariant`: the induction rule for a property of every such state;
* `Reach.mono`, `Reach.trans`: a weaker side condition, and a run that goes on where another one
  ended;
* `Reach.of_runOk`, `Reach.exists_of_runOk`, `Reach.exists_step_of_runOk`: a list of events executed
  under `ok` is such a run.
-/

namespace Events

universe u v

/-- A deterministic machine; all choice is in the event. -/
structure Machine (σ : Type u) (ε : Type v) where
  init : σ
  step : σ → ε → Option σ

variable {σ : Type u} {ε : Type v}

/-- States reached by runs all of whose steps satisfy `ok`. -/
inductive Reach (m : Machine σ ε) (ok : σ → ε → Prop) : σ → Prop
  | init : Reach m ok m.init
  | step {s s' : σ} {e : ε} : Reach m ok s → ok s e → m.step s e = some s' → Reach m ok s'

theorem Reach.invariant {m : Machine σ ε} {ok : σ → ε → Prop} {I : σ → Prop}
    (hinit : I m.init)
    (hstep : ∀ s e s', I s → ok s e → m.step s e = some s' → I s')
    {s : σ} (hr : Reach m ok s) : I s := by
  induction hr with
  | init => exact hinit
  | step _ hok hs ih => exact hstep _ _ _ ih hok hs

theorem Reach.mono {m : Machine σ ε} {ok ok' : σ → ε → Prop} (h : ∀ s e, ok s e → ok' s e) {s : σ}
    (hr : Reach m ok s) : Reach m ok' s := by
  induction hr with
  | init => exact .init
  | step _ hok hs ih => exact .step ih (h _ _ hok) hs

theorem Reach.trans {m : Machine σ ε} {ok : σ → ε → Prop} {s s' : σ} (hr : Reach m ok s)
    (hr' : Reach { m with init := s } ok s') : Reach m ok s' := by
  induction hr' with
  | init => exact hr
  | step _ hok hs ih => exact .step ih hok hs

/-- Execute a list of events as long as every step meets `ok`. -/
def Machine.runOk (m : Machine σ ε) (ok : σ → ε → Prop) [∀ s e, Decidable (ok s e)] :
    σ → List ε → Option σ
  | s, [] => some s
  | s, e :: es => if ok s e then (m.step s e).bind fun s' => m.runOk ok s' es else none

theorem Reach.of_runOk {m : Machine σ ε} {ok : σ → ε → Prop} [∀ s e, Decidable (ok s e)] {s s' : σ}
    (es : List ε) (hr : Reach m ok s) (he : m.runOk ok s es = some s') : Reach m ok s' := by
  induction es generalizing s with
  | nil =>
    simp only [Machine.runOk, Option.some.injEq] at he
    exact he ▸ hr
  | cons e es ih =>
    simp only [Machine.runOk, Option.ite_none_right_eq_some, Option.bind_eq_some_iff] at he
    obtain ⟨hok, s₁, hs, he⟩ := he
    exact ih (.step hr hok hs) he

/-- A list of events that can be executed under `ok` and ends in a state with `P`. -/
theorem Reach.exists_of_runOk {m : Machine σ ε} {ok : σ → ε → Prop} [∀ s e, Decidable (ok s e)]
    (P : σ → Prop) [DecidablePred P] (es : List ε)
    (h : (m.runOk ok m.init es).any (fun s => decide (P s)) = true) : ∃ s, Reach m ok s ∧ P s := by
  cases hrun : m.runOk ok m.init es with
  | none => simp [hrun] at h
  | some s => exact ⟨s, .of_runOk es .init hrun, by simpa [hrun] using h⟩

/-- A run under `ok` followed by one event, with `P` of the states around that event. -/
theorem Reach.exists_step_of_runOk {m : Machine σ ε} {ok : σ → ε → Prop} [∀ s e, Decidable (ok s e)]
    (P : σ → σ → Prop) [∀ s s', Decidable (P s s')] (es : List ε) (e : ε)
    (h : (m.runOk ok m.init es).any (fun s => (m.step s e).any fun s' => decide (P s s')) = true) :
    ∃ s s', Reach m ok s ∧ m.step s e = some s' ∧ P s s' := by
  cases hrun : m.runOk ok m.init es with
  | none => simp [hrun] at h
  | some s =>
    cases hstep : m.step s e with
    | none => simp [hrun, hstep] at h
    | some s' => exact ⟨s, s', .of_runOk es .init hrun, hstep, by simpa [hrun, hstep] using h⟩

end Events
