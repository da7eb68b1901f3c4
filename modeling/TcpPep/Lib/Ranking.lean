import Mathlib.Data.List.AList
import TcpPep.Lib.Machine
import TcpPep.Lib.Table

/-!
Machines that come to an end.

* `Ranking`: an invariant and a rank that every step lowers, except for events that are free;
* `Ranking.bound`: a run keeps the invariant and takes no more steps than the rank it starts from,
  free ones apart;
* `Ranking.ends`: what can always be approached by a step is reached;
* `weight`: a sum over the values of a finite map, and what insertion and deletion do to it.
-/

namespace Events

universe u v

variable {σ : Type u} {ε : Type v}

/-- A rank for the steps under `ok`. The events `free` may leave it as it is. -/
structure Ranking (m : Machine σ ε) (ok : σ → ε → Prop) (free : ε → Bool) where
  inv : σ → Prop
  rank : σ → Nat
  keep : ∀ {s e s'}, inv s → ok s e → m.step s e = some s' → inv s'
  lower : ∀ {s e s'}, inv s → ok s e → m.step s e = some s' →
    rank s' + (if free e then 0 else 1) ≤ rank s

namespace Ranking

variable {m : Machine σ ε} {ok : σ → ε → Prop} {free : ε → Bool} [∀ s e, Decidable (ok s e)]

/-- A run has at most as many counted steps as the rank it starts with. -/
theorem bound (r : Ranking m ok free) {s s' : σ} {es : List ε} (hs : r.inv s)
    (hrun : m.runOk ok s es = some s') :
    r.inv s' ∧ (es.countP fun e => !free e) + r.rank s' ≤ r.rank s := by
  induction es generalizing s with
  | nil =>
    simp only [Machine.runOk, Option.some.injEq] at hrun
    subst hrun
    exact ⟨hs, by simp⟩
  | cons e es ih =>
    simp only [Machine.runOk, Option.ite_none_right_eq_some, Option.bind_eq_some_iff] at hrun
    obtain ⟨hok, s₁, hstep, hrun⟩ := hrun
    obtain ⟨hinv, hrest⟩ := ih (r.keep hs hok hstep) hrun
    refine ⟨hinv, ?_⟩
    have hlow := r.lower hs hok hstep
    rw [List.countP_cons]
    cases hfree : free e with
    | true =>
      simp only [hfree, if_true] at hlow
      simp only [Bool.not_true, Bool.false_eq_true, if_false]
      omega
    | false =>
      simp only [hfree, Bool.false_eq_true, if_false] at hlow
      simp only [Bool.not_false, if_true]
      omega

/-- **A ranked machine arrives.** If every state short of the goal has a step that is not free, then
some run as short as the rank leads to the goal. -/
theorem ends (r : Ranking m ok free) {goal : σ → Prop}
    (hgo : ∀ s, r.inv s → ¬ goal s → ∃ e s', ok s e ∧ free e = false ∧ m.step s e = some s') {s : σ}
    (hs : r.inv s) :
    ∃ es s', es.length ≤ r.rank s ∧ m.runOk ok s es = some s' ∧ goal s' := by
  induction hn : r.rank s using Nat.strong_induction_on generalizing s with
  | _ n ih =>
    by_cases hgoal : goal s
    · exact ⟨[], s, Nat.zero_le _, rfl, hgoal⟩
    · obtain ⟨e, s₁, hok, hfree, hstep⟩ := hgo s hs hgoal
      have hlow := r.lower hs hok hstep
      simp only [hfree, Bool.false_eq_true, if_false] at hlow
      obtain ⟨es, s', hlen, hrun, hgoal'⟩ := ih (r.rank s₁) (by omega) (r.keep hs hok hstep) rfl
      refine ⟨e :: es, s', ?_, ?_, hgoal'⟩
      · rw [List.length_cons]
        omega
      · simp [Machine.runOk, hok, hstep, hrun]

end Ranking

end Events

namespace FiniteMap

universe u v

variable {κ : Type u} {α : Type v}

/-- The sum of `f` over the values of a list of entries. -/
def sumOf (f : α → Nat) : List (Σ _ : κ, α) → Nat
  | [] => 0
  | e :: l => f e.2 + sumOf f l

/-- The sum of `f` over the values of a map. -/
def weight (f : α → Nat) (t : Table κ α) : Nat := sumOf f t.entries

variable [DecidableEq κ]

/-- Deleting a key takes its value's share. -/
theorem sumOf_kerase (f : α → Nat) (k : κ) (l : List (Σ _ : κ, α)) (hl : l.NodupKeys) :
    sumOf f (l.kerase k) + ((l.dlookup k).map f).getD 0 = sumOf f l := by
  induction l with
  | nil => rfl
  | cons e l ih =>
    obtain ⟨k', a⟩ := e
    by_cases hk : k' = k
    · subst hk
      simp [List.kerase_cons_eq, List.dlookup_cons_eq, sumOf, Nat.add_comm]
    · rw [List.kerase_cons_ne fun h => hk h.symm, List.dlookup_cons_ne _ _ fun h => hk h.symm]
      have := ih (List.nodupKeys_cons.mp hl).2
      simp only [sumOf]
      omega

theorem weight_erase (f : α → Nat) (t : Table κ α) (k : κ) :
    weight f (t.erase k) + ((t.lookup k).map f).getD 0 = weight f t :=
  sumOf_kerase f k t.entries t.nodupKeys

theorem weight_insert (f : α → Nat) (t : Table κ α) (k : κ) (a : α) :
    weight f (t.insert k a) + ((t.lookup k).map f).getD 0 = weight f t + f a := by
  have herase := weight_erase f t k
  have hinsert : weight f (t.insert k a) = f a + weight f (t.erase k) := by
    rw [weight, AList.entries_insert]
    rfl
  omega

end FiniteMap
