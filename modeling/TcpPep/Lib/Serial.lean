import Mathlib.Tactic.Linarith
import Mathlib.Tactic.Ring
import Mathlib.Data.Int.ModEq

/-!
Counters sent modulo `n`, and how a receiver recovers the full count.

* `dist n x y`: how far `x` lies ahead of `y` on the circle of `n` values;
* `dist_of_le`, `dist_of_lt`: the distance of two counts that lie less than one
  turn apart;
* `unwrap n base r`: the count in `[base, base + n)` that is congruent to `r`;
* `unwrap_eq_self`: a count inside that window is recovered from its residue;
* `unwrap_succ`: moving the window one step changes no other residue.
-/

namespace Serial

/-- Distance from `y` forward to `x`, modulo `n`. -/
def dist (n x y : Nat) : Nat := (((x : Int) - y) % n).toNat

theorem dist_of_le {n x y : Nat} (hle : y ≤ x) (hlt : x < y + n) : dist n x y = x - y := by
  have h : ((x : Int) - y) % n = x - y := Int.emod_eq_of_lt (by omega) (by omega)
  unfold dist
  rw [h]
  omega

theorem dist_of_lt {n x y : Nat} (hlt : x < y) (hle : y ≤ x + n) :
    dist n x y = (n - (y - x)) % n := by
  have h : ((x : Int) - y) % n = ((n - (y - x) : Nat) : Int) % n := by
    rw [show ((n - (y - x) : Nat) : Int) = (x : Int) - y + n by omega, Int.add_emod_right]
  unfold dist
  rw [h, ← Int.natCast_mod, Int.toNat_natCast]

theorem dist_lt {n : Nat} (hn : 0 < n) (x y : Nat) : dist n x y < n := by
  have h := Int.emod_lt_of_pos ((x : Int) - y) (show (0 : Int) < n by omega)
  unfold dist
  omega

theorem dist_self (n x : Nat) : dist n x x = 0 := by
  simp [dist]

theorem dist_mod_left (n x y : Nat) : dist n (x % n) y = dist n x y := by
  unfold dist
  rw [Int.natCast_mod, Int.sub_emod, Int.emod_emod_of_dvd _ (dvd_refl _), ← Int.sub_emod]

theorem dist_mod_right (n x y : Nat) : dist n x (y % n) = dist n x y := by
  unfold dist
  rw [Int.natCast_mod, Int.sub_emod, Int.emod_emod_of_dvd _ (dvd_refl _), ← Int.sub_emod]

/-- The count at or above `base`, less than one turn away, congruent to `r`. -/
def unwrap (n base r : Nat) : Nat := base + dist n r base

theorem le_unwrap (n base r : Nat) : base ≤ unwrap n base r := Nat.le_add_right _ _

theorem unwrap_lt {n : Nat} (hn : 0 < n) (base r : Nat) : unwrap n base r < base + n :=
  Nat.add_lt_add_left (dist_lt hn r base) base

theorem unwrap_mod_arg (n base r : Nat) : unwrap n base (r % n) = unwrap n base r := by
  unfold unwrap
  rw [dist_mod_left]

theorem unwrap_eq_self {n base x : Nat} (hle : base ≤ x) (hlt : x < base + n) :
    unwrap n base x = x := by
  unfold unwrap
  rw [dist_of_le hle hlt]
  omega

theorem unwrap_mod {n : Nat} (hn : 0 < n) (base r : Nat) : unwrap n base r % n = r % n := by
  have hnn : (0 : Int) < n := by omega
  have hd : ((dist n r base : Nat) : Int) = ((r : Int) - base) % n :=
    Int.toNat_of_nonneg (Int.emod_nonneg _ (by omega))
  have h : ((unwrap n base r : Nat) : Int) % n = (r : Int) % n := by
    unfold unwrap
    rw [Nat.cast_add, hd, Int.add_emod_emod, add_sub_cancel]
  exact_mod_cast h

/-- Two counts in one window with the same residue are equal. -/
theorem eq_of_mod_eq {n base x y : Nat} (hx : base ≤ x) (hx' : x < base + n)
    (hy : base ≤ y) (hy' : y < base + n) (h : x % n = y % n) : x = y := by
  rw [← unwrap_eq_self hx hx', ← unwrap_eq_self hy hy', ← unwrap_mod_arg, h, unwrap_mod_arg]

theorem unwrap_succ {n : Nat} (hn : 0 < n) {base r : Nat} (h : r % n ≠ base % n) :
    unwrap n (base + 1) r = unwrap n base r := by
  have hne : unwrap n base r ≠ base := by
    intro he
    exact h (by rw [← unwrap_mod hn base r, he])
  have hle := le_unwrap n base r
  have hlt := unwrap_lt hn base r
  rw [← unwrap_mod_arg, ← unwrap_mod hn base r, unwrap_mod_arg]
  exact unwrap_eq_self (by omega) (by omega)

end Serial
