import Mathlib.Data.List.AList

/-!
Finite maps with one value type, on Mathlib's association lists.

* `lookup_insert_eq`: a look-up after an insertion, both cases at once;
* `eraseAll`, `lookup_eraseAll`: deleting every key of a list, as a loop over the keys of a map
  does;
* `lookup_foldl_insert_of_forall_ne`, `lookup_foldl_insert_of_mem`,
  `mem_or_lookup_of_lookup_foldl_insert`: a loop that inserts values under their own keys.
-/

namespace FiniteMap

universe u v

/-- A finite map from `κ` to `α`. -/
abbrev Table (κ : Type u) (α : Type v) := AList (fun _ : κ => α)

variable {κ : Type u} {α : Type v} [DecidableEq κ]

theorem lookup_insert_eq (t : Table κ α) (k k' : κ) (a : α) :
    (t.insert k a).lookup k' = if k' = k then some a else t.lookup k' := by
  by_cases h : k' = k
  · subst h
    simp [AList.lookup_insert]
  · simp [AList.lookup_insert_ne h, h]

theorem lookup_erase_eq (t : Table κ α) (k k' : κ) :
    (t.erase k).lookup k' = if k' = k then none else t.lookup k' := by
  by_cases h : k' = k
  · subst h
    simp
  · simp [AList.lookup_erase_ne h, h]

/-- Delete the listed keys one after the other. -/
def eraseAll (t : Table κ α) (ks : List κ) : Table κ α := ks.foldl (fun t k => t.erase k) t

theorem lookup_eraseAll (t : Table κ α) (ks : List κ) (k : κ) :
    (eraseAll t ks).lookup k = if k ∈ ks then none else t.lookup k := by
  induction ks generalizing t with
  | nil => simp [eraseAll]
  | cons k' ks ih =>
    have hcons : eraseAll t (k' :: ks) = eraseAll (t.erase k') ks := rfl
    rw [hcons, ih, lookup_erase_eq]
    by_cases hk : k = k'
    · simp [hk]
    · simp [hk]

theorem lookup_foldl_insert_of_forall_ne (key : α → κ) (l : List α) (t : Table κ α) {k : κ}
    (h : ∀ a ∈ l, key a ≠ k) :
    (l.foldl (fun t a => t.insert (key a) a) t).lookup k = t.lookup k := by
  induction l generalizing t with
  | nil => rfl
  | cons a l ih =>
    have hne : k ≠ key a := fun e => h a List.mem_cons_self e.symm
    rw [List.foldl_cons, ih _ fun b hb => h b (List.mem_cons_of_mem _ hb), lookup_insert_eq,
      if_neg hne]

theorem lookup_foldl_insert_of_mem (key : α → κ) {l : List α} (t : Table κ α)
    (hl : l.Pairwise fun a b => key a ≠ key b) {a : α} (ha : a ∈ l) :
    (l.foldl (fun t a => t.insert (key a) a) t).lookup (key a) = some a := by
  induction l generalizing t with
  | nil => cases ha
  | cons b l ih =>
    obtain ⟨hb, hl⟩ := List.pairwise_cons.mp hl
    rw [List.foldl_cons]
    rcases List.mem_cons.mp ha with rfl | ha
    · rw [lookup_foldl_insert_of_forall_ne key l _ fun c hc => (hb c hc).symm, lookup_insert_eq,
        if_pos rfl]
    · exact ih _ hl ha

theorem mem_or_lookup_of_lookup_foldl_insert (key : α → κ) {l : List α} {t : Table κ α} {k : κ}
    {a : α} (h : (l.foldl (fun t a => t.insert (key a) a) t).lookup k = some a) :
    a ∈ l ∨ t.lookup k = some a := by
  induction l generalizing t with
  | nil => exact Or.inr h
  | cons b l ih =>
    rcases ih h with hl | ht
    · exact Or.inl (List.mem_cons_of_mem _ hl)
    · rw [lookup_insert_eq] at ht
      split at ht
      · cases ht
        exact Or.inl List.mem_cons_self
      · exact Or.inr ht

/-- Whether the map has no key. -/
def isEmpty (t : Table κ α) : Bool := t.keys.isEmpty

theorem lookup_of_isEmpty {t : Table κ α} (h : isEmpty t = true) (k : κ) : t.lookup k = none := by
  rw [AList.lookup_eq_none, AList.mem_keys]
  simp only [isEmpty, List.isEmpty_iff] at h
  simp [h]

end FiniteMap
