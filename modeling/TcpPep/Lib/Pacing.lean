import Mathlib.Algebra.Order.Field.Basic
import Mathlib.Data.List.Chain
import Mathlib.Tactic.Linarith

/-!
Bursts on a clock: how much leaves within a window of time.

A log lists bursts by their time and size. When every burst leaves enough time after it to pay
for its own size at a given rate, no window carries more than the rate allows and one
burst on top.

* `within a b log`: the total size of the bursts between `a` and `b`;
* `Spaced rate cap log`: every burst is paid for before the next one, and none exceeds the cap;
* `Spaced.concat`: one more burst at the end of the log;
* `Spaced.within_le`: the bound for every window;
* `within_of_forall`: a window that covers the whole log.
-/

namespace Pacing

variable {τ : Type} [LinearOrder τ] {a b : τ} {x : τ × Nat} {log : List (τ × Nat)}

/-- The total size of the bursts from `a` to `b`, both included. -/
def within (a b : τ) (log : List (τ × Nat)) : Nat :=
  ((log.filter fun x => a ≤ x.1 ∧ x.1 ≤ b).map Prod.snd).sum

theorem within_nil : within a b [] = 0 := rfl

theorem within_cons_of_mem (ha : a ≤ x.1) (hb : x.1 ≤ b) :
    within a b (x :: log) = x.2 + within a b log := by
  simp [within, ha, hb]

theorem within_cons_of_lt (h : x.1 < a) : within a b (x :: log) = within a b log := by
  simp [within, not_le.mpr h]

theorem within_of_forall (h : ∀ y ∈ log, a ≤ y.1 ∧ y.1 ≤ b) :
    within a b log = (log.map Prod.snd).sum := by
  rw [within, List.filter_eq_self.mpr]
  simpa using h

variable [Field τ]

/-- The time from a burst to the next one pays for its size, and no burst exceeds the cap. -/
structure Spaced (rate : τ) (cap : Nat) (log : List (τ × Nat)) : Prop where
  gaps : log.IsChain fun x y => (x.2 : τ) ≤ rate * (y.1 - x.1)
  size_le : ∀ x ∈ log, x.2 ≤ cap

variable {rate : τ} {cap : Nat}

theorem spaced_nil : Spaced rate cap [] := ⟨.nil, by simp⟩

theorem Spaced.tail (h : Spaced rate cap (x :: log)) : Spaced rate cap log :=
  ⟨h.gaps.tail, fun y hy => h.size_le y (List.mem_cons_of_mem _ hy)⟩

/-- A burst that comes late enough after the last one. -/
theorem Spaced.concat (h : Spaced rate cap log) {t : τ} {n : Nat} (hn : n ≤ cap)
    (hlast : ∀ y ∈ log.getLast?, (y.2 : τ) ≤ rate * (t - y.1)) :
    Spaced rate cap (log ++ [(t, n)]) := by
  constructor
  · refine List.isChain_append.mpr ⟨h.gaps, .singleton _, ?_⟩
    intro y hy z hz
    cases hz
    exact hlast y hy
  · intro y hy
    rcases List.mem_append.mp hy with hy | hy
    · exact h.size_le y hy
    · rw [List.mem_singleton.mp hy]
      exact hn

variable [IsStrictOrderedRing τ]

/-- The bursts are in the order of their times. -/
theorem Spaced.time_le (hrate : 0 < rate) (h : Spaced rate cap (x :: log)) :
    ∀ y ∈ log, x.1 ≤ y.1 := by
  induction log generalizing x with
  | nil => simp
  | cons z log ih =>
    have hgap := (List.isChain_cons_cons.mp h.gaps).1
    have hxz : x.1 ≤ z.1 := by
      have hpos : 0 ≤ rate * (z.1 - x.1) := le_trans (Nat.cast_nonneg _) hgap
      linarith [nonneg_of_mul_nonneg_right hpos hrate]
    intro y hy
    rcases List.mem_cons.mp hy with rfl | hy
    · exact hxz
    · exact hxz.trans (ih h.tail y hy)

/-- Nothing is in a window that ends before the log starts. -/
theorem Spaced.within_eq_zero (hrate : 0 < rate) (h : Spaced rate cap (x :: log)) (hb : b < x.1) :
    within a b (x :: log) = 0 := by
  rw [within, List.filter_eq_nil_iff.mpr]
  · rfl
  · intro y hy
    have hxy : x.1 ≤ y.1 := by
      rcases List.mem_cons.mp hy with rfl | hy
      · exact le_refl _
      · exact h.time_le hrate y hy
    simp only [decide_eq_true_eq, not_and, not_le]
    exact fun _ => hb.trans_le hxy

/-- The bound from the first burst of the window on. The induction follows the bursts: each is paid
for by the time to its successor, the last one by the cap. -/
theorem Spaced.within_le_of_head (hrate : 0 < rate) (h : Spaced rate cap (x :: log)) (ha : a ≤ x.1)
    (hb : x.1 ≤ b) : (within a b (x :: log) : τ) ≤ rate * (b - x.1) + cap := by
  induction log generalizing x with
  | nil =>
    have hx : (x.2 : τ) ≤ cap := by exact_mod_cast h.size_le x (by simp)
    have hpos : 0 ≤ rate * (b - x.1) := mul_nonneg hrate.le (by linarith)
    rw [within_cons_of_mem ha hb, within_nil, Nat.add_zero]
    linarith
  | cons y log ih =>
    have hgap := (List.isChain_cons_cons.mp h.gaps).1
    rw [within_cons_of_mem ha hb, Nat.cast_add]
    by_cases hy : y.1 ≤ b
    · have hrest := ih h.tail (ha.trans (h.time_le hrate y (by simp))) hy
      linarith [mul_sub rate b x.1, mul_sub rate b y.1, mul_sub rate y.1 x.1]
    · have hx : (x.2 : τ) ≤ cap := by exact_mod_cast h.size_le x (by simp)
      have hpos : 0 ≤ rate * (b - x.1) := mul_nonneg hrate.le (by linarith)
      rw [h.tail.within_eq_zero hrate (not_le.mp hy), Nat.cast_zero]
      linarith

/-- A window holds what the rate allows for its length, and one burst more. -/
theorem Spaced.within_le (hrate : 0 < rate) (h : Spaced rate cap log) (hab : a ≤ b) :
    (within a b log : τ) ≤ rate * (b - a) + cap := by
  have hpos : 0 ≤ rate * (b - a) := mul_nonneg hrate.le (by linarith)
  have hcap : (0 : τ) ≤ cap := Nat.cast_nonneg _
  induction log with
  | nil =>
    rw [within_nil, Nat.cast_zero]
    linarith
  | cons x log ih =>
    rcases lt_or_ge x.1 a with hx | hx
    · rw [within_cons_of_lt hx]
      exact ih h.tail
    · rcases lt_or_ge b x.1 with hb | hb
      · rw [h.within_eq_zero hrate hb, Nat.cast_zero]
        linarith
      · have hhead := h.within_le_of_head hrate hx hb
        have hle : rate * (b - x.1) ≤ rate * (b - a) :=
          mul_le_mul_of_nonneg_left (by linarith) hrate.le
        linarith

end Pacing
