import TcpPep.Lib.Machine

/-!
History variables.

A history variable is kept beside a machine: it reads every step and has no say in any.

* `Machine.watched`: the machine with its variable;
* `Reach.watched`, `Reach.unwatched`: every run of the machine is a run with the variable, and back;
* `Reach.watched_invariant`: a property of state and variable, with what is known of the state
  alone.
-/

namespace Events

universe u v w

variable {σ : Type u} {ε : Type v} {γ : Type w}

/-- The machine beside a variable that `note` updates. -/
def Machine.watched (m : Machine σ ε) (init : γ) (note : σ → ε → γ → γ) : Machine (σ × γ) ε where
  init := (m.init, init)
  step s e := (m.step s.1 e).map fun s' => (s', note s.1 e s.2)

variable {m : Machine σ ε} {ok : σ → ε → Prop} {init : γ} {note : σ → ε → γ → γ}

theorem Reach.watched {s : σ} (hr : Reach m ok s) :
    ∃ g, Reach (m.watched init note) (fun s e => ok s.1 e) (s, g) := by
  induction hr with
  | init => exact ⟨init, .init⟩
  | @step s s' e _ hok hs ih =>
    obtain ⟨g, hg⟩ := ih
    exact ⟨note s e g, .step hg hok (by simp [Machine.watched, hs])⟩

variable {watchedOk : σ × γ → ε → Prop} {s : σ × γ}

theorem Reach.unwatched (hok : ∀ s e, watchedOk s e → ok s.1 e)
    (hr : Reach (m.watched init note) watchedOk s) :
    Reach m ok s.1 := by
  induction hr with
  | init => exact .init
  | step _ hs hstep ih =>
    obtain ⟨s', hstep', rfl⟩ := Option.map_eq_some_iff.mp hstep
    exact .step ih (hok _ _ hs) hstep'

/-- The state before each step is known to be reached. -/
theorem Reach.watched_invariant {I : σ → γ → Prop} (hinit : I m.init init)
    (hstep : ∀ s g e s', Reach m ok s → I s g → ok s e → m.step s e = some s' → I s' (note s e g))
    (hok : ∀ s e, watchedOk s e → ok s.1 e) (hr : Reach (m.watched init note) watchedOk s) :
    I s.1 s.2 := by
  induction hr with
  | init => exact hinit
  | step hr hs hstep' ih =>
    obtain ⟨s', hs', rfl⟩ := Option.map_eq_some_iff.mp hstep'
    exact hstep _ _ _ _ (hr.unwatched hok) ih (hok _ _ hs) hs'

end Events
