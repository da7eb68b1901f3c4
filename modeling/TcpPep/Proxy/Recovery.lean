import TcpPep.Proxy.Receiver

/-!
Recovery of one block.

The sender codes `k` framed shards with the parity count it has at that moment;
the receiver decodes with as many parity slots as its slice happens to have.
`Holding code data R b` is the invariant of a receive block whose shards come
from one sender block: which indices `R` have arrived, and what every slot
holds.

* `store_holding`, `tryDecodeBlock_holding`: the two parts of a reception;
* `receive_holding`: the step lemma;
* `extract_slot`: what the writer takes out of a decoded block.
-/

namespace TcpPep

open Protocol Fec FiniteMap ErasureCode

/-! ## Slots -/

namespace RxBlock

theorem slot_eq_some {b : RxBlock} {i : Nat} {p : Bytes} :
    b.slot i = some p ↔ b.packets[i]? = some (some p) := by
  simp only [slot, List.getD_eq_getElem?_getD]
  cases b.packets[i]? with
  | none => simp
  | some o => simp

theorem mem_present {b : RxBlock} {i : Nat} : i ∈ present b.packets ↔ (b.slot i).isSome := by
  rw [Fec.mem_present, Option.isSome_iff_exists]
  exact exists_congr fun p => slot_eq_some.symm

/-- The block with its slice grown to hold `idx`. -/
def grow (b : RxBlock) (idx : Nat) : RxBlock :=
  if idx ≥ b.packets.length then
    { b with
      packets := b.packets ++ List.replicate (idx + 1 - b.packets.length) none
      m := idx + 1 - b.k }
  else b

theorem slot_grow (b : RxBlock) (idx i : Nat) : (b.grow idx).slot i = b.slot i := by
  unfold grow
  split
  · simp only [slot, List.getD_eq_getElem?_getD, List.getElem?_append]
    split
    · rfl
    · rename_i hi
      rw [List.getElem?_eq_none (l := b.packets) (by omega), List.getElem?_replicate]
      split <;> rfl
  · rfl

theorem length_grow (b : RxBlock) (idx : Nat) :
    (b.grow idx).packets.length = max b.packets.length (idx + 1) := by
  unfold grow
  split
  · simp; omega
  · omega

@[simp] theorem grow_k (b : RxBlock) (idx : Nat) : (b.grow idx).k = b.k := by
  unfold grow; split <;> rfl

@[simp] theorem grow_receivedCnt (b : RxBlock) (idx : Nat) :
    (b.grow idx).receivedCnt = b.receivedCnt := by
  unfold grow; split <;> rfl

@[simp] theorem grow_decoded (b : RxBlock) (idx : Nat) : (b.grow idx).decoded = b.decoded := by
  unfold grow; split <;> rfl

theorem store_of_some {b : RxBlock} {idx : Nat} {q payload : Bytes} (h : b.slot idx = some q) :
    b.store idx payload = b.grow idx := by
  have hs : (b.grow idx).slot idx = some q := by rw [slot_grow, h]
  simp only [store]
  split
  · rfl
  · rename_i hnone
    cases hs.symm.trans hnone

theorem store_of_none {b : RxBlock} {idx : Nat} {payload : Bytes} (h : b.slot idx = none) :
    b.store idx payload =
      { b.grow idx with
        packets := (b.grow idx).packets.set idx (some payload)
        receivedCnt := b.receivedCnt + 1 } := by
  have hs : (b.grow idx).slot idx = none := by rw [slot_grow, h]
  rw [← grow_receivedCnt b idx]
  simp only [store]
  split
  · rename_i hsome
    cases hs.symm.trans hsome
  · rfl

theorem slot_store (b : RxBlock) (idx i : Nat) (payload : Bytes) :
    (b.store idx payload).slot i =
      if i = idx ∧ b.slot idx = none then some payload else b.slot i := by
  cases h : b.slot idx with
  | some q =>
    rw [store_of_some h, slot_grow]
    simp
  | none =>
    rw [store_of_none h]
    have hlt : idx < (b.grow idx).packets.length := by rw [length_grow]; omega
    by_cases hi : i = idx
    · subst hi
      simp [slot, List.getD_eq_getElem?_getD, hlt]
    · have hne : idx ≠ i := fun e => hi e.symm
      rw [if_neg (by simp [hi]), ← slot_grow b idx i]
      simp [slot, List.getD_eq_getElem?_getD, List.getElem?_set_ne hne]

theorem length_store (b : RxBlock) (idx : Nat) (payload : Bytes) :
    (b.store idx payload).packets.length = max b.packets.length (idx + 1) := by
  cases h : b.slot idx with
  | some q => rw [store_of_some h, length_grow]
  | none => rw [store_of_none h, List.length_set, length_grow]

theorem store_k (b : RxBlock) (idx : Nat) (payload : Bytes) : (b.store idx payload).k = b.k := by
  cases h : b.slot idx with
  | some q => rw [store_of_some h, grow_k]
  | none => rw [store_of_none h, grow_k]

theorem store_decoded (b : RxBlock) (idx : Nat) (payload : Bytes) :
    (b.store idx payload).decoded = b.decoded := by
  cases h : b.slot idx with
  | some q => rw [store_of_some h, grow_decoded]
  | none => rw [store_of_none h, grow_decoded]

theorem store_receivedCnt (b : RxBlock) (idx : Nat) (payload : Bytes) :
    (b.store idx payload).receivedCnt =
      if b.slot idx = none then b.receivedCnt + 1 else b.receivedCnt := by
  cases h : b.slot idx with
  | some q => rw [store_of_some h, grow_receivedCnt]; simp
  | none => rw [store_of_none h]; simp

theorem present_store (b : RxBlock) (idx : Nat) (payload : Bytes) :
    present (b.store idx payload).packets = insert idx (present b.packets) := by
  ext i
  rw [Finset.mem_insert, mem_present, mem_present, slot_store]
  by_cases hi : i = idx
  · subst hi
    cases h : b.slot i <;> simp
  · simp [hi]

theorem dataOk_eq_iff (b : RxBlock) : b.dataOk = b.k ↔ ∀ i < b.k, (b.slot i).isSome := by
  unfold dataOk
  constructor
  · intro h i hi
    have hall : ∀ j ∈ List.range b.k, (b.slot j).isSome = true := by
      rw [← List.countP_eq_length, h, List.length_range]
    exact hall i (List.mem_range.mpr hi)
  · intro h
    have hc : (List.range b.k).countP (fun i => (b.slot i).isSome) = (List.range b.k).length := by
      rw [List.countP_eq_length]
      intro j hj
      exact h j (List.mem_range.mp hj)
    rw [hc, List.length_range]

end RxBlock

/-! ## Framing -/

theorem length_frame (d : Bytes) : (frame d).length = d.length + 2 := by
  simp [frame, putUint16]

/-- A framed read is taken out again, whatever padding follows it. -/
theorem extract_frame {d : Bytes} (h : d.length < 65536) (rest : Bytes) :
    extract (some (frame d ++ rest)) = d := by
  have hn : (uint16 (UInt16.ofNat d.length >>> 8).toUInt8 (UInt16.ofNat d.length).toUInt8).toNat =
      d.length := by
    rw [uint16_putUint16, UInt16.toNat_ofNat']
    exact Nat.mod_eq_of_lt h
  simp only [frame, putUint16, List.cons_append, List.nil_append, extract, hn, List.length_append]
  split
  · rw [List.take_left' rfl]
  · rename_i hc
    have : d = [] := by
      cases d with
      | nil => rfl
      | cons a d => exact absurd ⟨by simp, by omega⟩ hc
    exact this.symm

/-! ## The block invariant -/

section Holding

variable {k n : Nat} {rs : ReedSolomon} (code : Code UInt8 k n) (data : List Bytes)

/-- Shard `i` of the block as the code sees it, all shards padded to one length. -/
def codeShard (i : Nat) : Bytes := code.shard (maxLen data) (paddedData data) i

/-- The payload a packet of the block carries for index `i`: a data shard as it
was framed, a parity shard as it was coded. -/
def sentShard (i : Nat) : Bytes := if i < k then data.getD i [] else codeShard code data i

/-- The receive block `b` holds shards of the sender block `data` only, and the
indices in `R` are those that have arrived. -/
structure Collected (R : Finset Nat) (b : RxBlock) : Prop where
  k_eq : b.k = k
  le_length : k ≤ b.packets.length
  length_le : b.packets.length ≤ n
  /-- every slot holds the shard that was sent, or its padded form -/
  slots : ∀ i p, b.slot i = some p → p = sentShard code data i ∨ p = codeShard code data i
  /-- before decoding, the slots in use are the indices that have arrived -/
  undecoded : b.decoded = false → present b.packets = R ∧ b.receivedCnt = R.card
  decoded : b.decoded = true → k ≤ R.card ∧ ∀ i < k, (b.slot i).isSome

/-- Between two receptions a block that could be decoded is decoded. -/
structure Holding (R : Finset Nat) (b : RxBlock) : Prop extends Collected code data R b where
  short : b.decoded = false → R.card < k

variable {code data} {R : Finset Nat} {b : RxBlock}

theorem codeShard_data (hk : data.length = k) {i : Nat} (hi : i < k) :
    codeShard code data i = padded (maxLen data) (data.getD i []) := by
  have hi' : i < data.length := hk ▸ hi
  apply code.shard_data hi _ (length_padded _ _)
  simp [paddedData, List.getD_eq_getElem?_getD, hi']

@[simp] theorem length_codeShard (i : Nat) : (codeShard code data i).length = maxLen data := by
  simp [codeShard]

theorem getD_mem_data (hk : data.length = k) {i : Nat} (hi : i < k) : data.getD i [] ∈ data := by
  have hi' : i < data.length := hk ▸ hi
  rw [List.getD_eq_getElem?_getD, List.getElem?_eq_getElem hi']
  exact List.getElem_mem hi'

/-- Whatever form a slot holds, padding it gives the coded shard. -/
theorem padded_slot (hk : data.length = k) {i : Nat} {p : Bytes}
    (h : p = sentShard code data i ∨ p = codeShard code data i) :
    p.length ≤ maxLen data ∧ padded (maxLen data) p = codeShard code data i := by
  have hc : (codeShard code data i).length = maxLen data := length_codeShard i
  have hself : padded (maxLen data) (codeShard code data i) = codeShard code data i :=
    padded_self hc
  rcases h with rfl | rfl
  · unfold sentShard
    split
    · rename_i hi
      exact ⟨length_le_maxLen (getD_mem_data hk hi), (codeShard_data hk hi).symm⟩
    · exact ⟨Nat.le_of_eq hc, hself⟩
  · exact ⟨Nat.le_of_eq hc, hself⟩

theorem store_holding (h : Holding code data R b) {i : Nat} (hi : i < n) :
    Collected code data (insert i R) (b.store i (sentShard code data i)) where
  k_eq := by rw [b.store_k, h.k_eq]
  le_length := by rw [b.length_store]; exact Nat.le_trans h.le_length (Nat.le_max_left _ _)
  length_le := by rw [b.length_store]; exact Nat.max_le.mpr ⟨h.length_le, hi⟩
  slots := by
    intro j p hj
    rw [b.slot_store] at hj
    split at hj
    · rename_i hc
      rw [hc.1]
      exact Or.inl (Option.some.inj hj).symm
    · exact h.slots j p hj
  undecoded := by
    intro hd
    rw [b.store_decoded] at hd
    obtain ⟨hR, hcnt⟩ := h.undecoded hd
    refine ⟨by rw [b.present_store, hR], ?_⟩
    rw [b.store_receivedCnt, hcnt]
    have hmem : i ∈ R ↔ (b.slot i).isSome := hR ▸ RxBlock.mem_present
    cases hs : b.slot i with
    | none =>
      have hnot : i ∉ R := by rw [hmem, hs]; simp
      simp [Finset.card_insert_of_notMem hnot]
    | some q =>
      have hin : i ∈ R := by rw [hmem, hs]; simp
      simp [Finset.insert_eq_of_mem hin]
  decoded := by
    intro hd
    rw [b.store_decoded] at hd
    obtain ⟨hle, hall⟩ := h.decoded hd
    refine ⟨Nat.le_trans hle (Finset.card_le_card (Finset.subset_insert i R)), ?_⟩
    intro j hj
    rw [b.slot_store]
    split
    · rfl
    · exact hall j hj

/-- With enough shards but a data shard missing, a parity shard is there. -/
theorem exists_parity (hR : present b.packets = R) (hcard : k ≤ R.card)
    (hmiss : ¬ ∀ i < k, (b.slot i).isSome) : ∃ i ∈ R, k ≤ i := by
  by_contra hno
  have hsub : R ⊆ Finset.range k := by
    intro i hi
    rw [Finset.mem_range]
    by_contra hge
    exact hno ⟨i, hi, by omega⟩
  have heq : R = Finset.range k :=
    Finset.eq_of_subset_of_card_le hsub (by rw [Finset.card_range]; exact hcard)
  apply hmiss
  intro i hi
  rw [← RxBlock.mem_present, hR, heq]
  exact Finset.mem_range.mpr hi

theorem mem_filterMap_packets {p : Bytes} (h : p ∈ b.packets.filterMap id) :
    ∃ i, b.slot i = some p := by
  rw [List.mem_filterMap] at h
  obtain ⟨o, ho, hp⟩ := h
  simp only [id_eq] at hp
  subst hp
  obtain ⟨i, hi⟩ := List.getElem?_of_mem ho
  exact ⟨i, RxBlock.slot_eq_some.mpr hi⟩

/-- The receiver's own maximum is the sender's once a parity shard is there. -/
theorem maxLen_packets (hk : data.length = k) (h : Collected code data R b) {i : Nat}
    (hi : i ∈ present b.packets) (hge : k ≤ i) :
    maxLen (b.packets.filterMap id) = maxLen data := by
  obtain ⟨p, hp⟩ := Option.isSome_iff_exists.mp (RxBlock.mem_present.mp hi)
  have hlen : p.length = maxLen data := by
    have hs : sentShard code data i = codeShard code data i := by
      rw [sentShard, if_neg (by omega)]
    rcases h.slots i p hp with rfl | rfl
    · rw [hs, length_codeShard]
    · exact length_codeShard i
  apply Nat.le_antisymm
  · apply maxLen_le
    intro q hq
    obtain ⟨j, hj⟩ := mem_filterMap_packets hq
    exact (padded_slot hk (h.slots j q hj)).1
  · rw [← hlen]
    apply length_le_maxLen
    rw [List.mem_filterMap]
    exact ⟨some p, List.mem_of_getElem? (RxBlock.slot_eq_some.mp hp), rfl⟩

theorem decodeShards_eq_some {i len : Nat} {s : Bytes}
    (h : (b.decodeShards len)[i]? = some (some s)) (hle : ∀ p, b.slot i = some p → p.length ≤ len) :
    ∃ p, b.slot i = some p ∧ s = padded len p := by
  rw [RxBlock.decodeShards, List.getElem?_map, Option.map_eq_some_iff] at h
  obtain ⟨o, ho, hs⟩ := h
  cases o with
  | none => cases hs
  | some p =>
    have hp : b.slot i = some p := RxBlock.slot_eq_some.mpr ho
    refine ⟨p, hp, ?_⟩
    have hl := hle p hp
    simp only at hs
    split at hs
    · exact (Option.some.inj hs).symm
    · rw [padded_self (by omega)]
      exact (Option.some.inj hs).symm

theorem countP_decodeShards (len : Nat) :
    (b.decodeShards len).countP Option.isSome = (present b.packets).card := by
  rw [card_present, RxBlock.decodeShards, List.countP_map]
  apply List.countP_congr
  intro o _
  cases o with
  | none => rfl
  | some p => simp only [Function.comp_apply]; split <;> rfl

/-- Decoding a block with a data shard missing restores every data shard. -/
theorem reconstruct_block (himpl : Implements rs code) (hk : data.length = k)
    (hpos : 0 < maxLen data) (h : Collected code data R b) (hd : b.decoded = false)
    (hcard : k ≤ R.card) (hmiss : ¬ ∀ i < k, (b.slot i).isSome) :
    b.tryDecodeBlock rs =
      { b with
        packets := (List.range b.packets.length).map fun i =>
          if i < k && (b.slot i).isNone then some (codeShard code data i) else b.slot i
        decoded := true } := by
  obtain ⟨hR, -⟩ := h.undecoded hd
  obtain ⟨j, hj, hge⟩ := exists_parity hR hcard hmiss
  have hlen := maxLen_packets hk h (hR ▸ hj) hge
  have hlt : j < b.packets.length := by
    obtain ⟨p, hp⟩ := Fec.mem_present.mp (hR ▸ hj : j ∈ present b.packets)
    exact (List.getElem?_eq_some_iff.mp hp).1
  have hsum : k + (b.packets.length - k) = b.packets.length := Nat.add_sub_cancel' h.le_length
  have hrec := reconstruct_eq himpl (b.packets.length - k) (maxLen data) (paddedData data)
    (b.decodeShards (maxLen data)) (by omega) (by rw [hsum]; exact h.length_le)
    (by rw [hsum]; simp [RxBlock.decodeShards]) hpos
    (by rw [countP_decodeShards, hR]; exact hcard) (by simp [hk])
    (fun d hd => length_of_mem_paddedData hd)
    (by
      intro i s hi
      obtain ⟨p, hp, rfl⟩ := decodeShards_eq_some hi
        (fun p hp => (padded_slot hk (h.slots i p hp)).1)
      exact (padded_slot hk (h.slots i p hp)).2)
  have hnot : b.dataOk ≠ b.k := by
    rw [ne_eq, b.dataOk_eq_iff, h.k_eq]
    exact hmiss
  unfold RxBlock.tryDecodeBlock
  rw [if_neg hnot]
  simp only [hlen, h.k_eq, hrec, hsum]
  rw [if_neg (by omega)]
  congr 1
  apply List.map_congr_left
  intro i hi
  split
  · have hi' : i < b.packets.length := List.mem_range.mp hi
    simp [List.getD_eq_getElem?_getD, hi', codeShard]
  · rfl

theorem tryDecodeBlock_holding (himpl : Implements rs code) (hk : data.length = k)
    (hpos : 0 < maxLen data) (h : Collected code data R b) (hd : b.decoded = false)
    (hcard : k ≤ R.card) : Holding code data R (b.tryDecodeBlock rs) := by
  by_cases hall : ∀ i < k, (b.slot i).isSome
  · have hok : b.dataOk = b.k := by
      rw [b.dataOk_eq_iff, h.k_eq]
      exact hall
    unfold RxBlock.tryDecodeBlock
    rw [if_pos hok]
    exact ⟨⟨h.k_eq, h.le_length, h.length_le, h.slots, by simp, fun _ => ⟨hcard, hall⟩⟩, by simp⟩
  · rw [reconstruct_block himpl hk hpos h hd hcard hall]
    have hslot : ∀ i, (RxBlock.slot
        { b with
          packets := (List.range b.packets.length).map fun i =>
            if i < k && (b.slot i).isNone then some (codeShard code data i) else b.slot i
          decoded := true } i) =
        if i < k && (b.slot i).isNone then some (codeShard code data i) else b.slot i := by
      intro i
      by_cases hi : i < b.packets.length
      · simp [RxBlock.slot, List.getD_eq_getElem?_getD, hi]
      · have hge : ¬ i < k := fun hlt => hi (Nat.lt_of_lt_of_le hlt h.le_length)
        simp [RxBlock.slot, List.getD_eq_getElem?_getD, hi, hge]
    refine ⟨⟨h.k_eq, by simpa using h.le_length, by simpa using h.length_le, ?_, by simp, ?_⟩, by
      simp⟩
    · intro i p hp
      rw [hslot] at hp
      split at hp
      · exact Or.inr (Option.some.inj hp).symm
      · exact h.slots i p hp
    · intro _
      refine ⟨hcard, fun i hi => ?_⟩
      rw [hslot]
      cases hs : b.slot i <;> simp [hi]

/-- **Step lemma.** A packet of the block keeps the invariant, with its index
added to those that have arrived. -/
theorem receive_holding (himpl : Implements rs code) (hk : data.length = k)
    (hpos : 0 < maxLen data) (h : Holding code data R b) {p : Packet} (hi : p.idx.toNat < n)
    (hp : p.payload = sentShard code data p.idx.toNat) :
    Holding code data (insert p.idx.toNat R) (b.receive rs p) := by
  have hs := store_holding h hi
  rw [← hp] at hs
  unfold RxBlock.receive
  simp only
  split
  · rename_i hc
    simp only [Bool.and_eq_true, decide_eq_true_eq, Bool.not_eq_true', hs.k_eq] at hc
    have hcard : k ≤ (insert p.idx.toNat R).card := by
      rw [← (hs.undecoded hc.2).2]
      exact hc.1
    exact tryDecodeBlock_holding himpl hk hpos hs hc.2 hcard
  · rename_i hc
    refine ⟨hs, fun hd => ?_⟩
    simp only [hd, hs.k_eq, Bool.not_false, Bool.and_true, decide_eq_true_eq, ge_iff_le,
      not_le, (hs.undecoded hd).2] at hc
    exact hc

theorem newRxBlock_holding (cfg : Config) (g : UInt16) (data : List Bytes) (hpos : 0 < cfg.fecK)
    {n : Nat} (hn : cfg.fecK + cfg.fecM ≤ n) (code : Code UInt8 cfg.fecK n) :
    Holding code data ∅ (newRxBlock cfg g) := by
  have hslot : ∀ i, (newRxBlock cfg g).slot i = none := by
    intro i
    simp only [newRxBlock, RxBlock.slot, List.getD_eq_getElem?_getD, List.getElem?_replicate]
    split <;> rfl
  refine ⟨⟨rfl, by simp [newRxBlock], by simpa [newRxBlock] using hn, ?_, ?_, ?_⟩, ?_⟩
  · intro i p hp
    rw [hslot] at hp
    cases hp
  · intro _
    refine ⟨?_, rfl⟩
    ext i
    rw [RxBlock.mem_present, hslot]
    simp
  · intro hd
    cases hd
  · intro _
    simpa using hpos

/-- What the writer takes out of a decoded block are the reads that were framed. -/
theorem extract_slot (hk : data.length = k) (h : Holding code data R b) (hd : b.decoded = true)
    {i : Nat} (hi : i < k) {d : Bytes} (hf : data.getD i [] = frame d) (hlen : d.length < 65536) :
    extract (b.slot i) = d := by
  obtain ⟨p, hp⟩ := Option.isSome_iff_exists.mp ((h.decoded hd).2 i hi)
  rw [hp]
  have hle : (frame d).length ≤ maxLen data := by
    rw [← hf]
    exact length_le_maxLen (getD_mem_data hk hi)
  rcases h.slots i p hp with rfl | rfl
  · rw [sentShard, if_pos hi, hf, ← List.append_nil (frame d)]
    exact extract_frame hlen []
  · rw [codeShard_data hk hi, hf, padded_of_le hle]
    exact extract_frame hlen _

end Holding

end TcpPep
