import Mathlib.Data.List.Basic
import Mathlib.Data.Nat.Digits.Defs

/-!
Numbers in decimal, as `%d` prints them.

* `decimal`: the digits, the first one first;
* `decimal_injective`: different numbers are printed differently;
* `decimal_separated`: two numbers with a character between them that is no digit can be told apart.
-/

namespace Decimal

/-- The digits of `n`; zero has one. -/
def decimal (n : Nat) : List Char :=
  if n = 0 then ['0'] else ((Nat.digits 10 n).map Nat.digitChar).reverse

/-- The number that a list of digits stands for. -/
def value (l : List Char) : Nat := Nat.ofDigits 10 (l.reverse.map fun c => c.toNat - 48)

theorem toNat_digitChar {d : Nat} (h : d < 10) : (Nat.digitChar d).toNat - 48 = d := by
  have hall : ∀ d < 10, (Nat.digitChar d).toNat - 48 = d := by decide
  exact hall d h

theorem value_decimal (n : Nat) : value (decimal n) = n := by
  unfold value decimal
  split
  · rename_i h
    subst h
    decide
  · rw [List.reverse_reverse, List.map_map]
    have hsame : ∀ d ∈ Nat.digits 10 n, ((fun c : Char => c.toNat - 48) ∘ Nat.digitChar) d = d := by
      intro d hd
      exact toNat_digitChar (Nat.digits_lt_base (by decide) hd)
    rw [List.map_congr_left hsame, List.map_id', Nat.ofDigits_digits]

theorem decimal_injective {n n' : Nat} (h : decimal n = decimal n') : n = n' := by
  rw [← value_decimal n, h, value_decimal]

theorem isDigit_of_mem_decimal {n : Nat} {c : Char} (h : c ∈ decimal n) : c.isDigit = true := by
  unfold decimal at h
  split at h
  · simp only [List.mem_singleton] at h
    subst h
    decide
  · rw [List.mem_reverse, List.mem_map] at h
    obtain ⟨d, hd, rfl⟩ := h
    have hall : ∀ d < 10, (Nat.digitChar d).isDigit = true := by decide
    exact hall d (Nat.digits_lt_base (by decide) hd)

/-- Both numbers can be read from a text in which something else stands between them. -/
theorem decimal_separated {c : Char} (hc : c.isDigit = false) {k m k' m' : Nat}
    (h : decimal k ++ c :: decimal m = decimal k' ++ c :: decimal m') : k = k' ∧ m = m' := by
  have hnot : ∀ n, c ∉ decimal n := by
    intro n hmem
    rw [isDigit_of_mem_decimal hmem] at hc
    cases hc
  obtain ⟨hk, -, hm⟩ := (List.append_cons_inj_of_notMem (hnot k) (hnot m)).mp h
  exact ⟨decimal_injective hk, decimal_injective hm⟩

end Decimal
