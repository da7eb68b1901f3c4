import TcpPep.Protocol.Header

/-!
The codec as a whole: `protocol/header.go`.

* `marshal_faithful_iff`: decoding undoes encoding exactly if the shard index of a
  DATA packet fits its five bits;
* `idx_truncated`: a DATA packet whose index is cut;
* `unmarshal_normal_form`: what `Unmarshal` accepts, and that `Marshal` of it is the
  input up to the T field, the reserved byte and trailing bytes.
-/

namespace TcpPep.Protocol

/-! ## Decode after encode -/

/-- The fields that the type of a packet carries; the others are zeroed. -/
def Packet.carried (p : Packet) : Packet :=
  match p.type with
  | .connect | .connErr => { type := p.type, streamID := p.streamID, addr := p.addr }
  | .connAck | .close | .reset => { type := p.type, streamID := p.streamID }
  | .data =>
    { type := p.type, streamID := p.streamID, seqNum := p.seqNum, groupID := p.groupID,
      idx := p.idx, isParity := p.isParity, payload := p.payload }
  | .nak => { type := p.type, streamID := p.streamID, seqNum := p.seqNum }
  | .lqr => { type := p.type, streamID := p.streamID, groupID := p.groupID, losses := p.losses }
  | .unknown _ _ => { type := p.type, streamID := p.streamID }

/-- Every value fits the width of its field on the wire. -/
structure Packet.Fits (p : Packet) : Prop where
  type : p.type.toByte < 8
  streamID : p.streamID ≤ 0x0FFF
  addr : p.type = .connect ∨ p.type = .connErr → p.addr.length ≤ 255
  idx : p.type = .data → p.idx < 32

/-- The shard index of a DATA packet that is not rejected fits its five bits. -/
def Packet.IdxFits (p : Packet) : Prop := p.type = .data → p.streamID ≤ 0x0FFF → p.idx < 32

theorem marshal_carried (p : Packet) : marshal p.carried = marshal p := by
  unfold Packet.carried
  split
  all_goals
    rename_i ht
    simp [marshal, ht]

/-- What is encoded fits, except perhaps for the shard index. -/
theorem of_marshal {p : Packet} {buf : Bytes} (hm : marshal p = .ok buf) :
    p.type.toByte < 8 ∧ p.streamID ≤ 0x0FFF ∧
      (p.type = .connect ∨ p.type = .connErr → p.addr.length ≤ 255) := by
  unfold marshal at hm
  split at hm
  · cases hm
  · rename_i hid
    have hid' : p.streamID ≤ 0x0FFF := UInt16.not_lt.mp hid
    cases ht : p.type with
    | unknown code hc => simp [ht] at hm
    | connect =>
      simp only [ht] at hm
      split at hm
      · cases hm
      · exact ⟨by decide, hid', fun _ => by omega⟩
    | connErr =>
      simp only [ht] at hm
      split at hm
      · cases hm
      · exact ⟨by decide, hid', fun _ => by omega⟩
    | _ => exact ⟨by decide, hid', by simp⟩

/-- **Decoding undoes encoding**, if the shard index fits. -/
theorem unmarshal_marshal {p : Packet} {buf : Bytes} (hm : marshal p = .ok buf) (hi : p.IdxFits) :
    unmarshal buf = .ok p.carried := by
  have hid := (of_marshal hm).2.1
  have hm' := hm
  rw [← marshal_carried] at hm'
  cases ht : p.type with
  | connect =>
    simp only [Packet.carried, ht] at hm' ⊢
    exact (unmarshal_marshal_addr (Or.inl rfl) hm').1
  | connErr =>
    simp only [Packet.carried, ht] at hm' ⊢
    exact (unmarshal_marshal_addr (Or.inr rfl) hm').1
  | connAck =>
    simp only [Packet.carried, ht] at hm' ⊢
    exact unmarshal_marshal_base (Or.inl rfl) hm'
  | close =>
    simp only [Packet.carried, ht] at hm' ⊢
    exact unmarshal_marshal_base (Or.inr (Or.inl rfl)) hm'
  | reset =>
    simp only [Packet.carried, ht] at hm' ⊢
    exact unmarshal_marshal_base (Or.inr (Or.inr rfl)) hm'
  | data =>
    simp only [Packet.carried, ht]
    exact unmarshal_marshal_data_whole hm ht (hi ht hid)
  | nak =>
    simp only [Packet.carried, ht] at hm' ⊢
    exact unmarshal_marshal_nak hm'
  | lqr =>
    simp only [Packet.carried, ht] at hm' ⊢
    exact unmarshal_marshal_lqr hm'
  | unknown code hc =>
    have hlt := (of_marshal hm).1
    rw [ht] at hlt
    exact absurd hc (UInt8.not_le.mpr hlt)

/-- A five-bit field never reads back as a larger index. -/
theorem idx_lt (b : UInt8) : b >>> 3 < 32 := by
  have hb := b.toNat_lt
  rw [UInt8.lt_iff_toNat_lt, UInt8.toNat_shiftRight, show (3 : UInt8).toNat % 8 = 3 from rfl,
    Nat.shiftRight_eq_div_pow, show (32 : UInt8).toNat = 32 from rfl]
  omega

/-! ## The layout of a datagram -/

/-- The StreamID in the first two bytes. -/
def streamIDOf (b0 b1 : UInt8) : UInt16 := uint16 (b0 &&& 0x0F) b1

/-- The datagrams of a packet. Whatever follows the fields of its type is not part of it,
except for DATA, where it is the payload. -/
inductive Layout : Bytes → Packet → Prop
  | addr {t : PacketType} {b0 b1 n : UInt8} {addr tail : Bytes} (ht : t = .connect ∨ t = .connErr)
      (hb : PacketType.ofByte (b0 >>> 4) = t) (hn : addr.length = n.toNat) :
      Layout (b0 :: b1 :: n :: (addr ++ tail)) { type := t, streamID := streamIDOf b0 b1, addr }
  | base {t : PacketType} {b0 b1 : UInt8} {tail : Bytes}
      (ht : t = .connAck ∨ t = .close ∨ t = .reset) (hb : PacketType.ofByte (b0 >>> 4) = t) :
      Layout (b0 :: b1 :: tail) { type := t, streamID := streamIDOf b0 b1 }
  | data {b0 b1 q g1 g0 f : UInt8} {payload : Bytes} (hb : PacketType.ofByte (b0 >>> 4) = .data) :
      Layout (b0 :: b1 :: q :: g1 :: g0 :: f :: payload)
        { type := .data, streamID := streamIDOf b0 b1, seqNum := q, groupID := uint16 g1 g0,
          idx := f >>> 3, isParity := decide (f &&& 0x07 = 2), payload }
  | nak {b0 b1 q : UInt8} {tail : Bytes} (hb : PacketType.ofByte (b0 >>> 4) = .nak) :
      Layout (b0 :: b1 :: q :: tail) { type := .nak, streamID := streamIDOf b0 b1, seqNum := q }
  | lqr {b0 b1 g1 g0 losses reserved : UInt8} {tail : Bytes}
      (hb : PacketType.ofByte (b0 >>> 4) = .lqr) :
      Layout (b0 :: b1 :: g1 :: g0 :: losses :: reserved :: tail)
        { type := .lqr, streamID := streamIDOf b0 b1, groupID := uint16 g1 g0, losses }

/-- The length a datagram needs by its type byte and, with an address, its length byte. -/
def headerLength (b : Bytes) : Nat :=
  match PacketType.ofByte (b.getD 0 0 >>> 4) with
  | .connect | .connErr => 3 + (b.getD 2 0).toNat
  | .connAck | .close | .reset => 2
  | .data | .lqr => 6
  | .nak => 3
  | .unknown _ _ => 0

theorem Layout.unmarshal_eq {b : Bytes} {p : Packet} (h : Layout b p) : unmarshal b = .ok p := by
  cases h with
  | @addr t b0 b1 n addr tail ht hb hn =>
    rcases ht with rfl | rfl
    all_goals
      simp only [unmarshal, List.length_cons, List.length_append, List.getD_cons_zero,
        List.getD_cons_succ, hb, List.drop_succ_cons, List.drop_zero, ← hn, List.take_left,
        streamIDOf]
      rw [if_neg (by omega), if_neg (by omega), if_neg (by omega)]
  | base ht hb =>
    rcases ht with rfl | rfl | rfl
    all_goals simp [unmarshal, hb, streamIDOf]
  | data hb =>
    simp only [unmarshal, List.length_cons, List.getD_cons_zero, List.getD_cons_succ, hb,
      List.drop_succ_cons, List.drop_zero, streamIDOf]
    rw [if_neg (by omega), if_neg (by omega)]
  | nak hb =>
    simp only [unmarshal, List.length_cons, List.getD_cons_zero, List.getD_cons_succ, hb,
      streamIDOf]
    rw [if_neg (by omega), if_neg (by omega)]
  | lqr hb =>
    simp only [unmarshal, List.length_cons, List.getD_cons_zero, List.getD_cons_succ, hb,
      streamIDOf]
    rw [if_neg (by omega), if_neg (by omega)]

theorem exists_cons {n : Nat} {b : Bytes} (h : n + 1 ≤ b.length) :
    ∃ x tail, b = x :: tail ∧ n ≤ tail.length := by
  cases b with
  | nil => simp at h
  | cons x tail => exact ⟨x, tail, rfl, by simpa using h⟩

/-- A datagram of a known type that has the length it needs has a layout. -/
theorem exists_layout {b : Bytes} (hlen : 2 ≤ b.length) (hheader : headerLength b ≤ b.length)
    (htype : ∀ code hc, PacketType.ofByte (b.getD 0 0 >>> 4) ≠ .unknown code hc) :
    ∃ p, Layout b p := by
  obtain ⟨b0, b, rfl, hrest⟩ := exists_cons hlen
  obtain ⟨b1, b, rfl, -⟩ := exists_cons hrest
  have haddr : ∀ t, t = .connect ∨ t = .connErr → PacketType.ofByte (b0 >>> 4) = t →
      ∃ p, Layout (b0 :: b1 :: b) p := by
    intro t ht hb
    have hn : 3 + (b.getD 0 0).toNat ≤ b.length + 2 := by
      rcases ht with rfl | rfl <;> simpa [headerLength, hb] using hheader
    obtain ⟨n, b, rfl, -⟩ := exists_cons (show 0 + 1 ≤ b.length by omega)
    simp only [List.getD_cons_zero, List.length_cons] at hn
    have hlayout := @Layout.addr t b0 b1 n (b.take n.toNat) (b.drop n.toNat) ht hb
      (List.length_take_of_le (by omega))
    rw [List.take_append_drop] at hlayout
    exact ⟨_, hlayout⟩
  cases ht : PacketType.ofByte (b0 >>> 4) with
  | connect => exact haddr _ (Or.inl rfl) ht
  | connErr => exact haddr _ (Or.inr rfl) ht
  | connAck => exact ⟨_, .base (Or.inl rfl) ht⟩
  | close => exact ⟨_, .base (Or.inr (Or.inl rfl)) ht⟩
  | reset => exact ⟨_, .base (Or.inr (Or.inr rfl)) ht⟩
  | data =>
    have hn : 4 ≤ b.length := by simpa [headerLength, ht] using hheader
    obtain ⟨q, b, rfl, h3⟩ := exists_cons hn
    obtain ⟨g1, b, rfl, h2⟩ := exists_cons h3
    obtain ⟨g0, b, rfl, h1⟩ := exists_cons h2
    obtain ⟨f, b, rfl, -⟩ := exists_cons h1
    exact ⟨_, .data ht⟩
  | nak =>
    have hn : 1 ≤ b.length := by simpa [headerLength, ht] using hheader
    obtain ⟨q, b, rfl, -⟩ := exists_cons hn
    exact ⟨_, .nak ht⟩
  | lqr =>
    have hn : 4 ≤ b.length := by simpa [headerLength, ht] using hheader
    obtain ⟨g1, b, rfl, h3⟩ := exists_cons hn
    obtain ⟨g0, b, rfl, h2⟩ := exists_cons h3
    obtain ⟨losses, b, rfl, h1⟩ := exists_cons h2
    obtain ⟨reserved, b, rfl, -⟩ := exists_cons h1
    exact ⟨_, .lqr ht⟩
  | unknown code hc => exact absurd ht (htype code hc)

/-- The datagrams that are rejected: too short for the base header, of an unknown type,
or shorter than their type and length byte say. -/
def Malformed (b : Bytes) : Prop :=
  b.length < 2 ∨ (7 : UInt8) < b.getD 0 0 >>> 4 ∨ b.length < headerLength b

theorem PacketType.toByte_ofByte (b : UInt8) : (ofByte b).toByte = b := by
  unfold ofByte
  split_ifs with h0 h1 h2 h3 h4 h5 h6 h7 h8
  · exact h0.symm
  · exact h1.symm
  · exact h2.symm
  · exact h3.symm
  · exact h4.symm
  · exact h5.symm
  · exact h6.symm
  · exact h7.symm
  · rfl
  · simp only [UInt8.le_iff_toNat_le, ← UInt8.toNat_inj] at *
    simp only [UInt8.reduceToNat] at *
    omega

theorem PacketType.toByte_lt_iff (t : PacketType) :
    7 < t.toByte ↔ ∃ code hc, t = .unknown code hc := by
  cases t with
  | unknown code hc =>
    refine ⟨fun _ => ⟨code, hc, rfl⟩, fun _ => ?_⟩
    rw [UInt8.lt_iff_toNat_lt]
    exact UInt8.le_iff_toNat_le.mp hc
  | _ => simp [toByte]

theorem Malformed.error {b : Bytes} (h : Malformed b) : ∃ err, unmarshal b = .error err := by
  unfold unmarshal
  split
  · exact ⟨_, rfl⟩
  · rename_i hlen
    rcases h with h | h | h
    · exact absurd h hlen
    · rw [← PacketType.toByte_ofByte (b.getD 0 0 >>> 4), PacketType.toByte_lt_iff] at h
      obtain ⟨code, hc, ht⟩ := h
      simp only [ht]
      exact ⟨_, rfl⟩
    · unfold headerLength at h
      split at h
      all_goals
        rename_i ht
        simp only [ht]
      · rw [if_pos h]
        split
        · exact ⟨_, rfl⟩
        · exact ⟨_, rfl⟩
      · rw [if_pos h]
        split
        · exact ⟨_, rfl⟩
        · exact ⟨_, rfl⟩
      · exact absurd h hlen
      · exact absurd h hlen
      · exact absurd h hlen
      · rw [if_pos h]
        exact ⟨_, rfl⟩
      · rw [if_pos h]
        exact ⟨_, rfl⟩
      · rw [if_pos h]
        exact ⟨_, rfl⟩
      · exact ⟨_, rfl⟩

/-- A datagram is rejected or has a layout. -/
theorem malformed_or_layout (b : Bytes) : Malformed b ∨ ∃ p, Layout b p := by
  by_cases h : Malformed b
  · exact Or.inl h
  · right
    simp only [Malformed, not_or, Nat.not_lt] at h
    refine exists_layout h.1 h.2.2 fun code hc ht => h.2.1 ?_
    rw [← PacketType.toByte_ofByte (b.getD 0 0 >>> 4), PacketType.toByte_lt_iff]
    exact ⟨code, hc, ht⟩

/-- **`Unmarshal` is the layout**: it succeeds on the datagrams that have one. -/
theorem unmarshal_iff {b : Bytes} {p : Packet} : unmarshal b = .ok p ↔ Layout b p := by
  constructor
  · intro h
    rcases malformed_or_layout b with hb | ⟨p', hb⟩
    · obtain ⟨err, herr⟩ := hb.error
      rw [h] at herr
      cases herr
    · have h' := hb.unmarshal_eq
      rw [h] at h'
      cases h'
      exact hb
  · exact Layout.unmarshal_eq

/-! ## Faithful encodings -/

theorem Layout.idx_lt {b : Bytes} {p : Packet} (h : Layout b p) : p.idx < 32 := by
  cases h with
  | data hb => exact Protocol.idx_lt _
  | _ => exact (by decide : (0 : UInt8) < 32)

/-- Only the shard index can be cut. -/
theorem rejected_of_not_fits {p : Packet} (hi : p.IdxFits) (h : ¬ p.Fits) :
    ∃ err, marshal p = .error err := by
  cases hm : marshal p with
  | error err => exact ⟨err, rfl⟩
  | ok buf =>
    obtain ⟨ht, hid, haddr⟩ := of_marshal hm
    exact absurd ⟨ht, hid, haddr, fun hd => hi hd hid⟩ h

theorem marshal_data_ok {p : Packet} (ht : p.type = .data) (hid : p.streamID ≤ 0x0FFF) :
    ∃ buf, marshal p = .ok buf := by
  unfold marshal
  rw [if_neg (UInt16.not_lt.mpr hid), ht]
  exact ⟨_, rfl⟩

/-- **Faithful encodings.** Decoding gives back every field the type carries, and a value too
wide for its field is rejected, exactly if a DATA packet's shard index fits; and packets
that differ in a carried field then have different encodings. -/
theorem marshal_faithful_iff (p : Packet) :
    (((∀ buf, marshal p = .ok buf → unmarshal buf = .ok p.carried) ∧
      (¬ p.Fits → ∃ err, marshal p = .error err)) ↔ p.IdxFits) ∧
    ∀ (q : Packet) (buf : Bytes), p.IdxFits → q.IdxFits → marshal p = .ok buf →
      marshal q = .ok buf → p.carried = q.carried := by
  refine ⟨⟨?_, fun hi => ⟨fun buf hm => unmarshal_marshal hm hi, rejected_of_not_fits hi⟩⟩, ?_⟩
  · rintro ⟨hround, -⟩ ht hid
    obtain ⟨buf, hm⟩ := marshal_data_ok ht hid
    have hlt := (unmarshal_iff.mp (hround buf hm)).idx_lt
    rwa [Packet.carried, ht] at hlt
  · intro q buf hp hq hmp hmq
    have hu := unmarshal_marshal hmp hp
    rw [unmarshal_marshal hmq hq] at hu
    exact (Except.ok.inj hu).symm

/-- **A truncated index.** Shard 32 is encoded without an error, as shard 0. -/
theorem idx_truncated :
    let p : Packet := { type := .data, streamID := 1, idx := 32, payload := [7] }
    let q : Packet := { p with idx := 0 }
    ∃ buf, marshal p = .ok buf ∧ unmarshal buf = .ok q ∧ marshal q = .ok buf ∧
    p.carried ≠ q.carried :=
  ⟨[0x30, 1, 0, 0, 0, 1, 7], by decide, by decide, by decide, by decide⟩

/-! ## Encode after decode -/

/-- `buf[lo:hi]`; there is no result where Go panics. -/
def slice (buf : Bytes) (lo hi : Nat) : Option Bytes :=
  if lo ≤ hi ∧ hi ≤ buf.length then some ((buf.take hi).drop lo) else none

/-- `binary.BigEndian.Uint16(buf[lo:lo+2])`. -/
def uint16At (buf : Bytes) (lo : Nat) : Option UInt16 := do
  let b ← slice buf lo (lo + 2)
  let hi ← b[0]?
  let lo ← b[1]?
  return uint16 hi lo

/-- `Unmarshal` with every index and slice expression checked against the bounds of `buf`:
there is no result where Go panics. -/
def unmarshalChecked (buf : Bytes) : Option (Except HeaderError Packet) :=
  if buf.length < 2 then some (.error .shortBase)
  else do
    let b0 ← buf[0]?
    let b1 ← buf[1]?
    let pType := PacketType.ofByte (b0 >>> 4)
    let streamID := uint16 (b0 &&& 0x0F) b1
    match pType with
    | .connect | .connErr =>
      if buf.length < 3 then return .error (.shortLength pType)
      else
        let length ← buf[2]?
        if buf.length < 3 + length.toNat then return .error (.shortAddress pType)
        else
          let addr ← slice buf 3 (3 + length.toNat)
          return .ok { type := pType, streamID, addr }
    | .connAck | .close | .reset => return .ok { type := pType, streamID }
    | .data =>
      if buf.length < 6 then return .error .shortData
      else
        let seqNum ← buf[2]?
        let groupID ← uint16At buf 3
        let f : UInt8 ← buf[5]?
        let payload ← slice buf 6 buf.length
        return .ok { type := pType, streamID, seqNum, groupID, idx := f >>> 3,
                     isParity := decide (f &&& 0x07 = 2), payload }
    | .nak =>
      if buf.length < 3 then return .error .shortNak
      else
        let seqNum ← buf[2]?
        return .ok { type := pType, streamID, seqNum }
    | .lqr =>
      if buf.length < 6 then return .error .shortLqr
      else
        let groupID ← uint16At buf 2
        let losses ← buf[4]?
        return .ok { type := pType, streamID, groupID, losses }
    | .unknown _ _ => return .error (.unknownType pType)

theorem getElem?_eq_getD {buf : Bytes} {i : Nat} (h : i < buf.length) :
    buf[i]? = some (buf.getD i 0) := by
  rw [List.getD_eq_getElem?_getD, List.getElem?_eq_getElem h]
  rfl

theorem uint16At_eq {buf : Bytes} {lo : Nat} (h : lo + 2 ≤ buf.length) :
    uint16At buf lo = some (uint16 (buf.getD lo 0) (buf.getD (lo + 1) 0)) := by
  have hget : ∀ i < 2, ((buf.take (lo + 2)).drop lo)[i]? = some (buf.getD (lo + i) 0) := by
    intro i hi
    rw [List.getElem?_drop, List.getElem?_take_of_lt (by omega), getElem?_eq_getD (by omega)]
  rw [uint16At, slice, if_pos ⟨by omega, h⟩]
  simp only [Option.pure_def, Option.bind_eq_bind, Option.bind_some, hget 0 (by omega),
    hget 1 (by omega), Nat.add_zero]

/-- The branch with an address: its length byte is there when it is read, and so is the address. -/
theorem addr_checked (buf : Bytes) (pType : PacketType) (streamID : UInt16) :
    (if buf.length < 3 then some (Except.error (HeaderError.shortLength pType))
      else buf[2]?.bind fun length =>
        if buf.length < 3 + length.toNat then some (.error (.shortAddress pType))
        else (slice buf 3 (3 + length.toNat)).bind fun addr =>
          some (.ok { type := pType, streamID, addr : Packet })) =
      some (if buf.length < 3 then .error (.shortLength pType)
        else if buf.length < 3 + (buf.getD 2 0).toNat then .error (.shortAddress pType)
        else .ok { type := pType, streamID, addr := (buf.drop 3).take (buf.getD 2 0).toNat }) := by
  by_cases h3 : buf.length < 3
  · rw [if_pos h3, if_pos h3]
  · rw [if_neg h3, if_neg h3, getElem?_eq_getD (by omega : 2 < buf.length), Option.bind_some]
    by_cases hn : buf.length < 3 + (buf.getD 2 0).toNat
    · rw [if_pos hn, if_pos hn]
    · rw [if_neg hn, if_neg hn, slice, if_pos ⟨by omega, by omega⟩, Option.bind_some,
        List.drop_take, Nat.add_sub_cancel_left]

/-- `Unmarshal` never reads outside its argument. -/
theorem unmarshalChecked_eq (buf : Bytes) : unmarshalChecked buf = some (unmarshal buf) := by
  unfold unmarshalChecked unmarshal
  by_cases h2 : buf.length < 2
  · rw [if_pos h2, if_pos h2]
  · rw [if_neg h2, if_neg h2, getElem?_eq_getD (by omega : 0 < buf.length),
      getElem?_eq_getD (by omega : 1 < buf.length)]
    simp only [Option.pure_def, Option.bind_eq_bind, Option.bind_some]
    generalize PacketType.ofByte (buf.getD 0 0 >>> 4) = pType
    cases pType with
    | connect => exact addr_checked buf _ _
    | connErr => exact addr_checked buf _ _
    | data =>
      by_cases h6 : buf.length < 6
      · simp only [if_pos h6]
      · simp only [if_neg h6, getElem?_eq_getD (by omega : 2 < buf.length),
          uint16At_eq (by omega : 3 + 2 ≤ buf.length), getElem?_eq_getD (by omega : 5 < buf.length),
          slice, Option.bind_some, List.take_length]
        rw [if_pos ⟨by omega, Nat.le_refl _⟩, Option.bind_some]
    | nak =>
      by_cases h3 : buf.length < 3
      · simp only [if_pos h3]
      · simp only [if_neg h3, getElem?_eq_getD (by omega : 2 < buf.length), Option.bind_some]
    | lqr =>
      by_cases h6 : buf.length < 6
      · simp only [if_pos h6]
      · simp only [if_neg h6, uint16At_eq (by omega : 2 + 2 ≤ buf.length),
          getElem?_eq_getD (by omega : 4 < buf.length), Option.bind_some]
    | _ => rfl

theorem toNat_nibble (b : UInt8) :
    (b >>> 4).toNat = b.toNat / 16 ∧ (b &&& 0x0F).toNat = b.toNat % 16 := by
  constructor
  · rw [UInt8.toNat_shiftRight, show (4 : UInt8).toNat % 8 = 4 from rfl, Nat.shiftRight_eq_div_pow]
  · rw [UInt8.toNat_and, show (0x0F : UInt8).toNat = 2 ^ 4 - 1 from rfl,
      Nat.and_two_pow_sub_one_eq_mod]

/-- The first two bytes are written again. -/
theorem base_bytes {t : PacketType} {b0 b1 : UInt8} (hb : PacketType.ofByte (b0 >>> 4) = t) :
    ¬ streamIDOf b0 b1 > 0x0FFF ∧ (t.toByte <<< 4) ||| (streamIDOf b0 b1 >>> 8).toUInt8 = b0 ∧
      (streamIDOf b0 b1 &&& 0xFF).toUInt8 = b1 := by
  have h0 := b0.toNat_lt
  have h1 := b1.toNat_lt
  obtain ⟨hhi, hlo⟩ := toNat_nibble b0
  have hid : (streamIDOf b0 b1).toNat = b0.toNat % 16 * 256 + b1.toNat := by
    rw [streamIDOf, toNat_uint16, hlo]
  have hhigh : (streamIDOf b0 b1 >>> 8).toUInt8 = b0 &&& 0x0F := by
    apply UInt8.toNat_inj.mp
    rw [UInt16.toNat_toUInt8, UInt16.toNat_shiftRight, show (8 : UInt16).toNat % 16 = 8 from rfl,
      Nat.shiftRight_eq_div_pow, hid, hlo]
    omega
  refine ⟨?_, ?_, ?_⟩
  · rw [gt_iff_lt, UInt16.lt_iff_toNat_lt, hid, show (0x0FFF : UInt16).toNat = 4095 from rfl]
    omega
  · rw [← hb, PacketType.toByte_ofByte, hhigh]
    apply UInt8.toNat_inj.mp
    have hpack : ((b0 >>> 4) <<< 4 ||| (b0 &&& 0x0F)).toNat = _ :=
      toNat_pack (b0 >>> 4) (b0 &&& 0x0F) 4 (by omega) (by omega) (by omega)
    rw [hpack, hhi, hlo]
    omega
  · apply UInt8.toNat_inj.mp
    rw [UInt16.toNat_toUInt8, UInt16.toNat_and, hid,
      show (0xFF : UInt16).toNat = 2 ^ 8 - 1 from rfl, Nat.and_two_pow_sub_one_eq_mod]
    omega

theorem putUint16_uint16 (hi lo : UInt8) : putUint16 (uint16 hi lo) = [hi, lo] := by
  have hhi := hi.toNat_lt
  have hlo := lo.toNat_lt
  rw [putUint16, List.cons.injEq, List.cons.injEq]
  refine ⟨UInt8.toNat_inj.mp ?_, UInt8.toNat_inj.mp ?_, rfl⟩
  · rw [UInt16.toNat_toUInt8, UInt16.toNat_shiftRight, show (8 : UInt16).toNat % 16 = 8 from rfl,
      Nat.shiftRight_eq_div_pow, toNat_uint16]
    omega
  · rw [UInt16.toNat_toUInt8, toNat_uint16]
    omega

/-- The T field after decoding and encoding: 2 for parity, 1 for anything else. -/
def normalT (f : UInt8) : UInt8 := if f &&& 0x07 = 2 then 2 else 1

theorem normalT_lt (f : UInt8) : normalT f < 8 := by
  unfold normalT
  split <;> decide

/-- `c` is byte `i` of the encoding of `p`, where a datagram of `p` has `b`: the two may
differ in the T field of DATA and in the reserved byte of LQR. -/
def AgreesAt (p : Packet) (i : Nat) (b c : UInt8) : Prop :=
  c = b ∨ (p.type = .data ∧ i = 5 ∧ c >>> 3 = b >>> 3 ∧ c &&& 0x07 = normalT b) ∨
    (p.type = .lqr ∧ i = 5 ∧ c = 0)

/-- **A packet that was decoded is encoded to its own datagram**, without what follows it. -/
theorem Layout.marshal_eq {b : Bytes} {p : Packet} (h : Layout b p) :
    ∃ buf, marshal p = .ok buf ∧ buf.length ≤ b.length ∧
      ∀ i < buf.length, AgreesAt p i (b.getD i 0) (buf.getD i 0) := by
  cases h with
  | @addr t b0 b1 n addr tail ht hb hn =>
    obtain ⟨hid, h0, h1⟩ := @base_bytes _ b0 b1 hb
    have hlt := n.toNat_lt
    have hn' : UInt8.ofNat addr.length = n := by rw [hn, UInt8.ofNat_toNat]
    refine ⟨b0 :: b1 :: n :: addr, ?_, by simp, fun i hi => Or.inl ?_⟩
    · rcases ht with rfl | rfl
      all_goals
        simp only [marshal, if_neg hid, h0, h1, hn']
        rw [if_neg (by omega)]
    · rw [show b0 :: b1 :: n :: (addr ++ tail) = (b0 :: b1 :: n :: addr) ++ tail from rfl,
        List.getD_append _ _ _ _ hi]
  | @base t b0 b1 tail ht hb =>
    obtain ⟨hid, h0, h1⟩ := @base_bytes _ b0 b1 hb
    refine ⟨[b0, b1], ?_, by simp, fun i hi => Or.inl ?_⟩
    · rcases ht with rfl | rfl | rfl
      all_goals simp only [marshal, if_neg hid, h0, h1]
    · rw [show b0 :: b1 :: tail = [b0, b1] ++ tail from rfl, List.getD_append _ _ _ _ hi]
  | @data b0 b1 q g1 g0 f payload hb =>
    obtain ⟨hid, h0, h1⟩ := @base_bytes _ b0 b1 hb
    have hT : (if decide (f &&& 0x07 = 2) then 2 else 1 : UInt8) &&& 0x07 = normalT f := by
      unfold normalT
      simp only [decide_eq_true_eq]
      split <;> rfl
    refine ⟨b0 :: b1 :: q :: g1 :: g0 :: ((f >>> 3) <<< 3 ||| normalT f) :: payload, ?_, by simp,
      ?_⟩
    · simp only [marshal, if_neg hid, h0, h1, putUint16_uint16, hT, List.cons_append,
        List.nil_append]
    · intro i hi
      by_cases h5 : i = 5
      · subst h5
        exact Or.inr (Or.inl ⟨rfl, rfl, idx_field (Protocol.idx_lt f) (normalT_lt f),
          parity_field (Protocol.idx_lt f) (normalT_lt f)⟩)
      · left
        rcases i with _ | _ | _ | _ | _ | _ | i
        all_goals first | rfl | exact absurd rfl h5
  | @nak b0 b1 q tail hb =>
    obtain ⟨hid, h0, h1⟩ := @base_bytes _ b0 b1 hb
    refine ⟨[b0, b1, q], ?_, by simp, fun i hi => Or.inl ?_⟩
    · simp only [marshal, if_neg hid, h0, h1]
    · rw [show b0 :: b1 :: q :: tail = [b0, b1, q] ++ tail from rfl, List.getD_append _ _ _ _ hi]
  | @lqr b0 b1 g1 g0 losses reserved tail hb =>
    obtain ⟨hid, h0, h1⟩ := @base_bytes _ b0 b1 hb
    refine ⟨[b0, b1, g1, g0, losses, 0], ?_, by simp, ?_⟩
    · simp only [marshal, if_neg hid, h0, h1, putUint16_uint16, List.cons_append, List.nil_append]
    · intro i hi
      by_cases h5 : i = 5
      · subst h5
        exact Or.inr (Or.inr ⟨rfl, rfl, rfl⟩)
      · left
        rcases i with _ | _ | _ | _ | _ | _ | i
        all_goals first | rfl | exact absurd rfl h5 | (simp at hi; omega)

/-- A packet that was decoded has no field that its type does not carry. -/
theorem Layout.carried_eq {b : Bytes} {p : Packet} (h : Layout b p) : p.carried = p := by
  cases h with
  | addr ht hb hn => rcases ht with rfl | rfl <;> rfl
  | base ht hb => rcases ht with rfl | rfl | rfl <;> rfl
  | _ => rfl

/-- **Normal form.** On every byte string `Unmarshal` stays inside its bounds, fails exactly on
the malformed ones, and otherwise gives a packet whose encoding is no longer than the
input, agrees with it, and decodes to the same packet. -/
theorem unmarshal_normal_form (b : Bytes) :
    unmarshalChecked b = some (unmarshal b) ∧
      ((∃ err, unmarshal b = .error err) ↔ Malformed b) ∧
      ∀ p, unmarshal b = .ok p → ∃ buf, marshal p = .ok buf ∧ buf.length ≤ b.length ∧
        (∀ i < buf.length, AgreesAt p i (b.getD i 0) (buf.getD i 0)) ∧ unmarshal buf = .ok p := by
  refine ⟨unmarshalChecked_eq b, ⟨?_, Malformed.error⟩, ?_⟩
  · rintro ⟨err, herr⟩
    rcases malformed_or_layout b with hb | ⟨p, hb⟩
    · exact hb
    · rw [hb.unmarshal_eq] at herr
      cases herr
  · intro p hp
    have hb := unmarshal_iff.mp hp
    obtain ⟨buf, hm, hlen, hagree⟩ := hb.marshal_eq
    have hround := unmarshal_marshal hm fun _ _ => hb.idx_lt
    rw [hb.carried_eq] at hround
    exact ⟨buf, hm, hlen, hagree, hround⟩

end TcpPep.Protocol
