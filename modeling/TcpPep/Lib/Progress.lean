import TcpPep.Lib.Machine

/-!
What a machine can still bring about.

* `Attains m ok I P Q`: from every state with `I` and `P` some run under `ok` leads to a state with
  `I` and `Q`;
* `Attains.trans`, `Attains.step`: composition, and one step;
* `Attains.of_rank`, `Attains.of_rank_step`, `Attains.of_rank_until`: what lowers a rank as long as
  it is not there gets there.
-/

namespace Events

universe u v

variable {σ : Type u} {ε : Type v}

/-- Every step under `ok` keeps `I`. -/
def Stable (m : Machine σ ε) (ok : σ → ε → Prop) (I : σ → Prop) : Prop :=
  ∀ s e s', I s → ok s e → m.step s e = some s' → I s'

def Attains (m : Machine σ ε) (ok : σ → ε → Prop) (I P Q : σ → Prop) : Prop :=
  ∀ s, I s → P s → ∃ s', Reach { m with init := s } ok s' ∧ I s' ∧ Q s'

namespace Attains

variable {m : Machine σ ε} {ok : σ → ε → Prop} {I P Q R : σ → Prop}

theorem trans (h : Attains m ok I P Q) (h' : Attains m ok I Q R) : Attains m ok I P R := by
  intro s hi hp
  obtain ⟨s₁, hr₁, hi₁, hq⟩ := h s hi hp
  obtain ⟨s₂, hr₂, hi₂, hr⟩ := h' s₁ hi₁ hq
  exact ⟨s₂, hr₁.trans hr₂, hi₂, hr⟩

theorem step (hI : Stable m ok I) (h : ∀ s, I s → P s → ∃ e s', ok s e ∧ m.step s e = some s' ∧
    Q s') :
    Attains m ok I P Q := by
  intro s hi hp
  obtain ⟨e, s', hok, hs, hq⟩ := h s hi hp
  exact ⟨s', .step .init hok hs, hI s e s' hi hok hs, hq⟩

/-- Induction on a rank that some step lowers. -/
theorem of_rank (rank : σ → Nat)
    (h : ∀ n, Attains m ok I (fun s => P s ∧ rank s = n) (fun s => Q s ∨ P s ∧ rank s < n)) :
    Attains m ok I P Q := by
  intro s hi hp
  induction hn : rank s using Nat.strongRecOn generalizing s with
  | _ n ih =>
    obtain ⟨s₁, hr₁, hi₁, hq | ⟨hp₁, hlt⟩⟩ := h n s hi ⟨hp, hn⟩
    · exact ⟨s₁, hr₁, hi₁, hq⟩
    · obtain ⟨s₂, hr₂, hi₂, hq⟩ := ih (rank s₁) hlt s₁ hi₁ hp₁ rfl
      exact ⟨s₂, hr₁.trans hr₂, hi₂, hq⟩

/-- Induction on a rank that every step lowers. -/
theorem of_rank_step (hI : Stable m ok I) (rank : σ → Nat)
    (h : ∀ s, I s → P s → ∃ e s', ok s e ∧ m.step s e = some s' ∧
      (Q s' ∨ P s' ∧ rank s' < rank s)) :
    Attains m ok I P Q := by
  refine of_rank rank fun n => step hI ?_
  rintro s hi ⟨hp, rfl⟩
  exact h s hi hp

/-- Induction on a rank that every step lowers until `Q` holds; `P` is kept all the way. -/
theorem of_rank_until (hI : Stable m ok I) (rank : σ → Nat)
    (h : ∀ s, I s → P s → ¬ Q s → ∃ e s', ok s e ∧ m.step s e = some s' ∧ P s' ∧ rank s' < rank s) :
    Attains m ok I P (fun s => P s ∧ Q s) := by
  intro s hi hp
  induction hn : rank s using Nat.strongRecOn generalizing s with
  | _ n ih =>
    by_cases hq : Q s
    · exact ⟨s, .init, hi, hp, hq⟩
    · obtain ⟨e, s₁, hok, hs, hp₁, hlt⟩ := h s hi hp hq
      obtain ⟨s₂, hr₂, hi₂, hpq⟩ := ih (rank s₁) (by omega) s₁ (hI s e s₁ hi hok hs) hp₁ rfl
      exact ⟨s₂, Reach.trans (.step .init hok hs) hr₂, hi₂, hpq⟩

end Attains

end Events
