import TcpPep.Lib.ErasureCode
import TcpPep.Protocol.Header

/-!
The FEC wrapper: `fec/fec.go`.

The Reed-Solomon package itself is outside the repository. It is the parameter
`ReedSolomon`, and `Implements rs code` states what its documentation promises:
`New(k, m)` gives a systematic code whose parity row `j` does not depend on
`m`, any `k` rows of which fix the data, and `Reconstruct` fills every missing
shard. Encoders are cached by the wrapper under `"k,m"`; a cached encoder is
the one `New` returned, so `getEncoder` is `New`.

* `encode_eq`: the parity shards `Encode` returns;
* `reconstruct_eq`: `Reconstruct` restores every shard of a block from any `k`.
-/

namespace TcpPep.Fec

open TcpPep.Protocol ErasureCode

/-- A `reedsolomon.Encoder`; an error is `none`. -/
structure Encoder where
  encode : List Bytes → Option (List Bytes)
  reconstruct : List (Option Bytes) → Option (List (Option Bytes))

/-- The package: `reedsolomon.New(k, m)`. -/
structure ReedSolomon where
  new : Nat → Nat → Option Encoder

def getEncoder (rs : ReedSolomon) (k m : Nat) : Option Encoder := rs.new k m

/-- `copy` into a fresh zeroed slice of `n` bytes. -/
def padded (n : Nat) (p : Bytes) : Bytes := p.take n ++ List.replicate (n - p.length) 0

/-- The running maximum of the shard lengths. -/
def maxLen (data : List Bytes) : Nat :=
  data.foldl (fun m d => if d.length > m then d.length else m) 0

def encode (rs : ReedSolomon) (k m : Nat) (data : List Bytes) : Option (List Bytes) :=
  if m = 0 then some []
  else
    match getEncoder rs k m with
    | none => none
    | some enc =>
      let len := if maxLen data = 0 then 1 else maxLen data
      let shards := (List.range k).map (fun i => padded len (data.getD i [])) ++
        List.replicate m (List.replicate len 0)
      match enc.encode shards with
      | none => none
      | some out => some ((out.drop k).take m)

def reconstruct (rs : ReedSolomon) (k m : Nat) (shards : List (Option Bytes)) :
    Option (List (Option Bytes)) :=
  if m = 0 then none
  else
    match getEncoder rs k m with
    | none => none
    | some enc => enc.reconstruct shards

/-- What the package promises for `k` data shards and up to `n` shards in all. -/
structure Implements {k n : Nat} (rs : ReedSolomon) (code : Code UInt8 k n) : Prop where
  new_ok : ∀ m, 1 ≤ m → k + m ≤ n → ∃ enc, rs.new k m = some enc
  encode_ok : ∀ m enc len data buffers, rs.new k m = some enc → k + m ≤ n →
    data.length = k → buffers.length = m → 0 < len →
    (∀ d ∈ data, d.length = len) → (∀ b ∈ buffers, b.length = len) →
    enc.encode (data ++ buffers) =
      some (data ++ (List.range m).map fun j => code.shard len data (k + j))
  reconstruct_ok : ∀ m enc len data shards, rs.new k m = some enc → k + m ≤ n →
    shards.length = k + m → 0 < len → k ≤ shards.countP Option.isSome →
    data.length = k → (∀ d ∈ data, d.length = len) →
    (∀ i s, shards[i]? = some (some s) → s = code.shard len data i) →
    ∃ data', data'.length = k ∧ (∀ d ∈ data', d.length = len) ∧
      (∀ i s, shards[i]? = some (some s) → s = code.shard len data' i) ∧
      enc.reconstruct shards =
        some ((List.range (k + m)).map fun i => some (code.shard len data' i))

/-! ## Padding -/

theorem length_padded (n : Nat) (p : Bytes) : (padded n p).length = n := by
  simp [padded]; omega

theorem padded_of_le {n : Nat} {p : Bytes} (h : p.length ≤ n) :
    padded n p = p ++ List.replicate (n - p.length) 0 := by
  rw [padded, List.take_of_length_le h]

theorem padded_self {n : Nat} {p : Bytes} (h : p.length = n) : padded n p = p := by
  simp [padded, ← h]

private theorem foldl_maxLen (data : List Bytes) (m : Nat) :
    data.foldl (fun m d => if d.length > m then d.length else m) m = max m (maxLen data) := by
  induction data generalizing m with
  | nil => simp [maxLen]
  | cons d data ih =>
    simp only [maxLen, List.foldl_cons]
    rw [ih, ih]
    split <;> split <;> omega

theorem maxLen_cons (d : Bytes) (data : List Bytes) :
    maxLen (d :: data) = max d.length (maxLen data) := by
  rw [maxLen, List.foldl_cons, foldl_maxLen]
  split <;> omega

theorem length_le_maxLen {data : List Bytes} {d : Bytes} (h : d ∈ data) :
    d.length ≤ maxLen data := by
  induction data with
  | nil => simp at h
  | cons e data ih =>
    rw [maxLen_cons]
    rcases List.mem_cons.mp h with rfl | h
    · exact Nat.le_max_left _ _
    · exact Nat.le_trans (ih h) (Nat.le_max_right _ _)

theorem maxLen_le {data : List Bytes} {n : Nat} (h : ∀ d ∈ data, d.length ≤ n) :
    maxLen data ≤ n := by
  induction data with
  | nil => simp [maxLen]
  | cons e data ih =>
    rw [maxLen_cons]
    exact Nat.max_le.mpr ⟨h e (by simp), ih fun d hd => h d (by simp [hd])⟩

/-! ## Encode and Reconstruct on a block -/

/-- The data shards of a block as the encoder sees them. -/
def paddedData (data : List Bytes) : List Bytes := data.map (padded (maxLen data))

@[simp] theorem length_paddedData (data : List Bytes) : (paddedData data).length = data.length := by
  simp [paddedData]

theorem length_of_mem_paddedData {data : List Bytes} {d : Bytes} (h : d ∈ paddedData data) :
    d.length = maxLen data := by
  obtain ⟨e, _, rfl⟩ := List.mem_map.mp h
  exact length_padded _ e

private theorem range_padded {k len : Nat} {data : List Bytes} (hk : data.length = k) :
    (List.range k).map (fun i => padded len (data.getD i [])) = data.map (padded len) := by
  apply List.ext_getElem
  · simp [hk]
  · intro i _ hi
    have hi' : i < data.length := by simpa using hi
    simp [List.getD_eq_getElem?_getD, hi']

variable {k n : Nat} {rs : ReedSolomon} {code : Code UInt8 k n}

theorem encode_eq (himpl : Implements rs code) {m : Nat} {data : List Bytes} (hn : k + m ≤ n)
    (hk : data.length = k) (hpos : 0 < maxLen data) :
    encode rs k m data =
      some ((List.range m).map fun j => code.shard (maxLen data) (paddedData data) (k + j)) := by
  by_cases hm : m = 0
  · simp [encode, hm]
  · obtain ⟨enc, henc⟩ := himpl.new_ok m (by omega) hn
    have hlen : (if maxLen data = 0 then 1 else maxLen data) = maxLen data := by
      split <;> omega
    have hout := himpl.encode_ok m enc (maxLen data) (paddedData data)
      (List.replicate m (List.replicate (maxLen data) 0)) henc hn (by simp [hk]) (by simp) hpos
      (fun d hd => length_of_mem_paddedData hd)
      (fun b hb => by rw [(List.mem_replicate.mp hb).2]; simp)
    unfold encode getEncoder
    simp only [hm, ↓reduceIte, henc, hlen]
    rw [range_padded hk]
    change (match enc.encode (paddedData data ++ _) with
      | none => none
      | some out => some ((out.drop k).take m)) = _
    rw [hout]
    have hdrop : (paddedData data ++ (List.range m).map fun j =>
        code.shard (maxLen data) (paddedData data) (k + j)).drop k =
        (List.range m).map fun j => code.shard (maxLen data) (paddedData data) (k + j) :=
      List.drop_left' (by simp [hk])
    simp only [hdrop]
    rw [List.take_of_length_le (by simp)]

/-- Positions of the shards that are present. -/
def present (shards : List (Option Bytes)) : Finset Nat :=
  (Finset.range shards.length).filter fun i => (shards.getD i none).isSome

theorem mem_present {shards : List (Option Bytes)} {i : Nat} :
    i ∈ present shards ↔ ∃ s, shards[i]? = some (some s) := by
  simp only [present, Finset.mem_filter, Finset.mem_range, List.getD_eq_getElem?_getD]
  constructor
  · rintro ⟨hi, hs⟩
    rw [List.getElem?_eq_getElem hi] at hs ⊢
    obtain ⟨s, hs⟩ := Option.isSome_iff_exists.mp hs
    exact ⟨s, by simpa using hs⟩
  · rintro ⟨s, hs⟩
    refine ⟨(List.getElem?_eq_some_iff.mp hs).1, ?_⟩
    simp [hs]

theorem card_present (shards : List (Option Bytes)) :
    (present shards).card = shards.countP Option.isSome := by
  have hl : shards = (List.range shards.length).map fun i => shards.getD i none := by
    apply List.ext_getElem
    · simp
    · intro i hi _
      simp [List.getD_eq_getElem?_getD, hi]
  conv_rhs => rw [hl, List.countP_map]
  rw [List.countP_eq_length_filter, present, Finset.card_def, Finset.filter_val, Finset.range_val,
    Multiset.range, Multiset.filter_coe, Multiset.coe_card]
  simp [Function.comp_def]

theorem reconstruct_eq (himpl : Implements rs code) (m len : Nat) (data : List Bytes)
    (shards : List (Option Bytes)) (hm : 1 ≤ m) (hn : k + m ≤ n) (hlen : shards.length = k + m)
    (hpos : 0 < len) (hcount : k ≤ shards.countP Option.isSome) (hk : data.length = k)
    (hdata : ∀ d ∈ data, d.length = len)
    (hs : ∀ i s, shards[i]? = some (some s) → s = code.shard len data i) :
    reconstruct rs k m shards =
      some ((List.range (k + m)).map fun i => some (code.shard len data i)) := by
  obtain ⟨enc, henc⟩ := himpl.new_ok m hm hn
  obtain ⟨data', hk', hdata', hs', hrec⟩ :=
    himpl.reconstruct_ok m enc len data shards henc hn hlen hpos hcount hk hdata hs
  -- both lists of words agree with the shards that are present, so they are equal
  have heq : data = data' := by
    apply code.data_unique hk hk' hdata hdata' (present shards)
    · rw [card_present]; exact hcount
    · intro i hi
      obtain ⟨s, hi⟩ := mem_present.mp hi
      have := (List.getElem?_eq_some_iff.mp hi).1
      omega
    · intro i hi
      obtain ⟨s, hi⟩ := mem_present.mp hi
      rw [← hs i s hi, ← hs' i s hi]
  subst heq
  have hm0 : m ≠ 0 := by omega
  simp only [reconstruct, getEncoder, hm0, ↓reduceIte, henc, hrec]

end TcpPep.Fec
