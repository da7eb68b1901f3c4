import Mathlib.Data.Finset.Powerset
import TcpPep.Fec.Fec

/-!
The Reed-Solomon package at two data shards and one parity shard.

For `New(2, 1)` the package's matrix has the parity row `[3, 2]` over GF(256)
with the polynomial `0x11D`. The encoder is written out for that pair.

* `twoOne`: the code, any two of whose three symbols fix the data;
* `implements_twoOne`: the encoder keeps what `Implements` asks for.
-/

namespace TcpPep.Fec

open TcpPep.Protocol ErasureCode

/-! ## The row `[3, 2]` -/

def mulTwo (x : UInt8) : UInt8 := if x < 128 then x <<< 1 else (x <<< 1) ^^^ 0x1D

def mulThree (x : UInt8) : UInt8 := mulTwo x ^^^ x

/-- Division by two: the product with `0x8E`. -/
def divTwo (x : UInt8) : UInt8 := if x &&& 1 = 0 then x >>> 1 else ((x ^^^ 0x1D) >>> 1) ||| 128

/-- Division by three: the product with `0xF4`. -/
def divThree (x : UInt8) : UInt8 :=
  let x4 := mulTwo (mulTwo x)
  let x16 := mulTwo (mulTwo x4)
  let x32 := mulTwo x16
  let x64 := mulTwo x32
  x4 ^^^ x16 ^^^ x32 ^^^ x64 ^^^ mulTwo x64

/-- A property of bytes holds of all of them if it holds of `0, …, 255`. -/
theorem forall_byte {P : UInt8 → Prop} (h : ∀ i : Fin 256, P (UInt8.ofNat i)) (x : UInt8) :
    P x := by
  simpa using h ⟨x.toNat, x.toNat_lt⟩

theorem divTwo_mulTwo (x : UInt8) : divTwo (mulTwo x) = x := by
  revert x
  apply forall_byte
  decide +kernel

theorem divThree_mulThree (x : UInt8) : divThree (mulThree x) = x := by
  revert x
  apply forall_byte
  decide +kernel

def parityByte (x y : UInt8) : UInt8 := mulThree x ^^^ mulTwo y

theorem divThree_parityByte (x y : UInt8) : divThree (parityByte x y ^^^ mulTwo y) = x := by
  rw [parityByte, UInt8.xor_assoc, UInt8.xor_self, UInt8.xor_zero, divThree_mulThree]

theorem divTwo_parityByte (x y : UInt8) : divTwo (parityByte x y ^^^ mulThree x) = y := by
  rw [parityByte, UInt8.xor_comm, ← UInt8.xor_assoc, UInt8.xor_self, UInt8.zero_xor, divTwo_mulTwo]

/-- Two of the three indices are in any two-element set of them. -/
theorem two_of_three : ∀ I ∈ (Finset.range 3).powerset, 2 ≤ Finset.card I →
    (0 ∈ I ∧ 1 ∈ I) ∨ (0 ∈ I ∧ 2 ∈ I) ∨ (1 ∈ I ∧ 2 ∈ I) := by decide

def twoOne : Code UInt8 2 3 where
  parity _ d := parityByte (d 0) (d 1)
  determined := by
    intro I hcard hlt d d' hagree
    have hI : I ∈ (Finset.range 3).powerset := by
      rw [Finset.mem_powerset]
      intro i hi
      exact Finset.mem_range.mpr (hlt i hi)
    have h0 : 0 ∈ I → d 0 = d' 0 := fun h => by simpa [symbolOf] using hagree 0 h
    have h1 : 1 ∈ I → d 1 = d' 1 := fun h => by simpa [symbolOf] using hagree 1 h
    have h2 : 2 ∈ I → parityByte (d 0) (d 1) = parityByte (d' 0) (d' 1) :=
      fun h => by simpa [symbolOf] using hagree 2 h
    have hboth : d 0 = d' 0 ∧ d 1 = d' 1 := by
      rcases two_of_three I hI hcard with ⟨i, j⟩ | ⟨i, j⟩ | ⟨i, j⟩
      · exact ⟨h0 i, h1 j⟩
      · refine ⟨h0 i, ?_⟩
        rw [← divTwo_parityByte (d 0) (d 1), h2 j, h0 i, divTwo_parityByte]
      · refine ⟨?_, h1 i⟩
        rw [← divThree_parityByte (d 0) (d 1), h2 j, h1 i, divThree_parityByte]
    funext i
    rcases Fin.exists_fin_two.mp ⟨i, rfl⟩ with rfl | rfl
    · exact hboth.1
    · exact hboth.2

/-! ## The encoder -/

/-- `Encode` fills the parity buffer; shards of different or no length are an error. -/
def encodeTwoOne : List Bytes → Option (List Bytes)
  | [a, b, p] =>
    if a.length = b.length ∧ b.length = p.length ∧ 0 < a.length then
      some [a, b, List.zipWith parityByte a b]
    else none
  | _ => none

/-- `Reconstruct` fills the one shard that may be missing. -/
def reconstructTwoOne : List (Option Bytes) → Option (List (Option Bytes))
  | [some a, some b, some p] => some [some a, some b, some p]
  | [some a, some b, none] => some [some a, some b, some (List.zipWith parityByte a b)]
  | [some a, none, some p] =>
    some [some a, some (List.zipWith (fun p x => divTwo (p ^^^ mulThree x)) p a), some p]
  | [none, some b, some p] =>
    some [some (List.zipWith (fun p y => divThree (p ^^^ mulTwo y)) p b), some b, some p]
  | _ => none

def reedSolomonTwoOne : ReedSolomon where
  new k m := if k = 2 ∧ m = 1 then some ⟨encodeTwoOne, reconstructTwoOne⟩ else none

theorem new_twoOne {m : Nat} {enc : Encoder} (h : reedSolomonTwoOne.new 2 m = some enc) :
    m = 1 ∧ enc = ⟨encodeTwoOne, reconstructTwoOne⟩ := by
  simp only [reedSolomonTwoOne, true_and] at h
  split at h
  · rename_i hm
    exact ⟨hm, (Option.some.inj h).symm⟩
  · cases h

theorem shard_twoOne {a b : Bytes} (h : a.length = b.length) :
    twoOne.shard a.length [a, b] 0 = a ∧ twoOne.shard a.length [a, b] 1 = b ∧
      twoOne.shard a.length [a, b] 2 = List.zipWith parityByte a b := by
  refine ⟨twoOne.shard_data (by decide) rfl rfl, twoOne.shard_data (by decide) rfl h.symm, ?_⟩
  apply List.ext_getElem
  · simp [h]
  · intro t ht _
    have ha : t < a.length := by simpa using ht
    have hb : t < b.length := h ▸ ha
    simp [Code.shard, Code.symbol, symbolOf, twoOne, column, List.getD_eq_getElem?_getD, ha, hb]

theorem zipWith_divTwo {a b : Bytes} (h : a.length = b.length) :
    List.zipWith (fun p x => divTwo (p ^^^ mulThree x)) (List.zipWith parityByte a b) a = b := by
  apply List.ext_getElem
  · simp [h]
  · intro t _ _
    simp [divTwo_parityByte]

theorem zipWith_divThree {a b : Bytes} (h : a.length = b.length) :
    List.zipWith (fun p y => divThree (p ^^^ mulTwo y)) (List.zipWith parityByte a b) b = a := by
  apply List.ext_getElem
  · simp [h]
  · intro t _ _
    simp [divThree_parityByte]

theorem implements_twoOne : Implements reedSolomonTwoOne twoOne where
  new_ok := by
    intro m hm hn
    have hone : m = 1 := by omega
    exact ⟨⟨encodeTwoOne, reconstructTwoOne⟩, by simp [reedSolomonTwoOne, hone]⟩
  encode_ok := by
    intro m enc len data buffers henc hn hk hb hpos hdata hbuf
    obtain ⟨rfl, rfl⟩ := new_twoOne henc
    obtain ⟨a, b, rfl⟩ := List.length_eq_two.mp hk
    obtain ⟨p, rfl⟩ := List.length_eq_one_iff.mp hb
    have ha : a.length = len := hdata a (by simp)
    have hb' : b.length = len := hdata b (by simp)
    have hp : p.length = len := hbuf p (by simp)
    have hs := (shard_twoOne (ha.trans hb'.symm)).2.2
    rw [ha] at hs
    simp [encodeTwoOne, ha, hb', hp, hpos, hs, List.range_succ]
  reconstruct_ok := by
    intro m enc len data shards henc hn hlen hpos hcount hk hdata hs
    obtain ⟨rfl, rfl⟩ := new_twoOne henc
    obtain ⟨a, b, rfl⟩ := List.length_eq_two.mp hk
    obtain ⟨o₀, o₁, o₂, rfl⟩ := List.length_eq_three.mp hlen
    have ha : a.length = len := hdata a (by simp)
    have hb : b.length = len := hdata b (by simp)
    obtain ⟨h0, h1, h2⟩ := shard_twoOne (ha.trans hb.symm)
    rw [ha] at h0 h1 h2
    refine ⟨[a, b], rfl, hdata, hs, ?_⟩
    have e0 : ∀ p, o₀ = some p → p = a := fun p hp => by rw [← h0]; exact hs 0 p (by simp [hp])
    have e1 : ∀ p, o₁ = some p → p = b := fun p hp => by rw [← h1]; exact hs 1 p (by simp [hp])
    have e2 : ∀ p, o₂ = some p → p = List.zipWith parityByte a b :=
      fun p hp => by rw [← h2]; exact hs 2 p (by simp [hp])
    have hab := ha.trans hb.symm
    -- at most one of the three is missing
    cases o₀ with
    | none =>
      cases o₁ with
      | none => cases o₂ <;> simp at hcount
      | some q =>
        cases o₂ with
        | none => simp at hcount
        | some p =>
          obtain rfl := e1 q rfl
          obtain rfl := e2 p rfl
          simp [reconstructTwoOne, List.range_succ, h0, h1, h2, zipWith_divThree hab]
    | some r =>
      obtain rfl := e0 r rfl
      cases o₁ with
      | none =>
        cases o₂ with
        | none => simp at hcount
        | some p =>
          obtain rfl := e2 p rfl
          simp [reconstructTwoOne, List.range_succ, h0, h1, h2, zipWith_divTwo hab]
      | some q =>
        obtain rfl := e1 q rfl
        cases o₂ with
        | none => simp [reconstructTwoOne, List.range_succ, h0, h1, h2]
        | some p =>
          obtain rfl := e2 p rfl
          simp [reconstructTwoOne, List.range_succ, h0, h1, h2]

end TcpPep.Fec
