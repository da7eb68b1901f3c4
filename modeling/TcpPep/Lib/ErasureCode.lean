import Mathlib.Data.Finset.Card
import Mathlib.Data.List.GetD

/-!
Systematic erasure codes on words.

A `Code S k n` has `k` data symbols and `n` symbols in all: symbol `i < k` is
data symbol `i`, symbol `k + j` is parity row `j`. Any `k` symbols determine
the data. Words (lists of symbols of one length) are coded column by column.

* `shard_data`: the first `k` shards of a coded list of words are the words;
* `data_unique`: two lists of words that agree on `k` shards are equal.
-/

namespace ErasureCode

universe u

variable {S : Type u} {k n : Nat}

/-- Symbol `i` of the data `d`, with `parity` giving the rows after the data. -/
def symbolOf (parity : Nat → (Fin k → S) → S) (d : Fin k → S) (i : Nat) : S :=
  if h : i < k then d ⟨i, h⟩ else parity (i - k) d

/-- A systematic code in which any `k` of the first `n` symbols fix the data. -/
structure Code (S : Type u) (k n : Nat) where
  parity : Nat → (Fin k → S) → S
  determined : ∀ (I : Finset Nat), k ≤ I.card → (∀ i ∈ I, i < n) →
    ∀ d d' : Fin k → S, (∀ i ∈ I, symbolOf parity d i = symbolOf parity d' i) → d = d'

def Code.symbol (code : Code S k n) (d : Fin k → S) (i : Nat) : S := symbolOf code.parity d i

theorem Code.symbol_data (code : Code S k n) (d : Fin k → S) {i : Nat} (h : i < k) :
    code.symbol d i = d ⟨i, h⟩ := by
  simp [Code.symbol, symbolOf, h]

section Words

variable [Inhabited S]

/-- Symbol `t` of each of the first `k` words. -/
def column (k : Nat) (words : List (List S)) (t : Nat) : Fin k → S :=
  fun i => (words.getD i []).getD t default

/-- Shard `i` of a list of words, coded over the columns `0, …, len - 1`. -/
def Code.shard (code : Code S k n) (len : Nat) (words : List (List S)) (i : Nat) : List S :=
  (List.range len).map fun t => code.symbol (column k words t) i

@[simp] theorem Code.length_shard (code : Code S k n) (len : Nat) (words : List (List S))
    (i : Nat) : (code.shard len words i).length = len := by
  simp [Code.shard]

theorem Code.shard_data (code : Code S k n) {len i : Nat} {words : List (List S)} {w : List S}
    (hi : i < k) (hw : words[i]? = some w) (hlen : w.length = len) :
    code.shard len words i = w := by
  apply List.ext_getElem
  · simp [hlen]
  · intro t _ ht
    simp [Code.shard, Code.symbol_data code _ hi, column, List.getD_eq_getElem?_getD, hw, ht]

/-- Lists of `k` words of one length with the same columns are equal. -/
theorem words_eq_of_column {len : Nat} {words words' : List (List S)}
    (hk : words.length = k) (hk' : words'.length = k)
    (hlen : ∀ w ∈ words, w.length = len) (hlen' : ∀ w ∈ words', w.length = len)
    (hcol : ∀ t < len, column k words t = column k words' t) : words = words' := by
  apply List.ext_getElem (hk.trans hk'.symm)
  intro i hi hi'
  have h1 := hlen _ (List.getElem_mem hi)
  have h2 := hlen' _ (List.getElem_mem hi')
  apply List.ext_getElem (h1.trans h2.symm)
  intro t ht ht'
  have hc := congrFun (hcol t (h1 ▸ ht)) ⟨i, hk ▸ hi⟩
  simpa [column, List.getD_eq_getElem?_getD, hi, hi', ht, ht'] using hc

/-- Any `k` shards determine the words that were coded. -/
theorem Code.data_unique (code : Code S k n) {len : Nat} {words words' : List (List S)}
    (hk : words.length = k) (hk' : words'.length = k)
    (hlen : ∀ w ∈ words, w.length = len) (hlen' : ∀ w ∈ words', w.length = len)
    (I : Finset Nat) (hI : k ≤ I.card) (hn : ∀ i ∈ I, i < n)
    (hs : ∀ i ∈ I, code.shard len words i = code.shard len words' i) : words = words' := by
  apply words_eq_of_column hk hk' hlen hlen'
  intro t ht
  apply code.determined I hI hn
  intro i hi
  have h := congrArg (fun l => l[t]?) (hs i hi)
  simpa [Code.shard, Code.symbol, ht] using h

end Words

end ErasureCode
