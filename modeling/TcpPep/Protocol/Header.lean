import Mathlib.Data.List.GetD
import Mathlib.Tactic.Linarith

/-!
The wire format: `protocol/header.go`.

`marshal` and `unmarshal` are the two codec functions. Proved here are the
round trips the sessions rely on: a DATA packet whose index fits its five bits,
possibly cut at the end by a receive buffer (`unmarshal_marshal_data`), and the
NAK, LQR and two-byte packets.
-/

namespace TcpPep.Protocol

abbrev Bytes := List UInt8

/-- The type byte: eight named values, the rest unknown. -/
inductive PacketType where
  | connect
  | connAck
  | connErr
  | data
  | close
  | reset
  | nak
  | lqr
  | unknown (code : UInt8) (h : 8 ≤ code)
  deriving DecidableEq

namespace PacketType

def toByte : PacketType → UInt8
  | connect => 0x0
  | connAck => 0x1
  | connErr => 0x2
  | data => 0x3
  | close => 0x4
  | reset => 0x5
  | nak => 0x6
  | lqr => 0x7
  | unknown code _ => code

def ofByte (b : UInt8) : PacketType :=
  if b = 0x0 then connect
  else if b = 0x1 then connAck
  else if b = 0x2 then connErr
  else if b = 0x3 then data
  else if b = 0x4 then close
  else if b = 0x5 then reset
  else if b = 0x6 then nak
  else if b = 0x7 then lqr
  else if h : 8 ≤ b then unknown b h
  else connect

/-- One digit of the `%x` verb. -/
def hexDigit (n : Nat) : String := String.singleton ("0123456789abcdef".toList.getD n '0')

/-- `fmt.Sprintf("%x", b)` for one byte: no leading zero. -/
def hex (b : UInt8) : String :=
  if b < 16 then hexDigit b.toNat else hexDigit (b.toNat / 16) ++ hexDigit (b.toNat % 16)

def string : PacketType → String
  | connect => "CONNECT"
  | connAck => "CONN_ACK"
  | connErr => "CONN_ERR"
  | data => "DATA"
  | close => "CLOSE"
  | reset => "RESET"
  | nak => "NAK"
  | lqr => "LQR"
  | unknown code _ => "UNKNOWN(0x" ++ hex code ++ ")"

end PacketType

/-- All packet variants in one record; a field its type does not carry is zero. -/
structure Packet where
  type : PacketType
  streamID : UInt16
  addr : Bytes := []
  seqNum : UInt8 := 0
  groupID : UInt16 := 0
  idx : UInt8 := 0
  isParity : Bool := false
  payload : Bytes := []
  losses : UInt8 := 0
  deriving DecidableEq

/-- The errors of the codec. -/
inductive HeaderError where
  | streamIDLimit (id : UInt16)
  | addressTooLong
  | unknownType (t : PacketType)
  | shortBase
  | shortLength (t : PacketType)
  | shortAddress (t : PacketType)
  | shortData
  | shortNak
  | shortLqr
  deriving DecidableEq

def HeaderError.text : HeaderError → String
  | streamIDLimit id => "stream ID " ++ toString id.toNat ++ " exceeds 12-bit limit"
  | addressTooLong => "address string too long (max 255 bytes)"
  | unknownType t => "unknown packet type " ++ t.string
  | shortBase => "packet too short for base header"
  | shortLength t => t.string ++ " packet too short for length field"
  | shortAddress t => t.string ++ " packet too short for address payload"
  | shortData => "DATA packet too short for header"
  | shortNak => "NAK packet too short"
  | shortLqr => "LQR packet too short"

/-- `binary.BigEndian.PutUint16`. -/
def putUint16 (v : UInt16) : Bytes := [(v >>> 8).toUInt8, v.toUInt8]

/-- `binary.BigEndian.Uint16`. -/
def uint16 (hi lo : UInt8) : UInt16 := hi.toUInt16 <<< 8 ||| lo.toUInt16

def marshal (p : Packet) : Except HeaderError Bytes :=
  if p.streamID > 0x0FFF then .error (.streamIDLimit p.streamID)
  else
    let base0 := (p.type.toByte <<< 4) ||| (p.streamID >>> 8).toUInt8
    let base1 := (p.streamID &&& 0xFF).toUInt8
    match p.type with
    | .connect | .connErr =>
      if p.addr.length > 255 then .error .addressTooLong
      else .ok (base0 :: base1 :: UInt8.ofNat p.addr.length :: p.addr)
    | .connAck | .close | .reset => .ok [base0, base1]
    | .data =>
      let tVal : UInt8 := if p.isParity then 2 else 1
      .ok (base0 :: base1 :: p.seqNum ::
        (putUint16 p.groupID ++ (p.idx <<< 3 ||| (tVal &&& 0x07)) :: p.payload))
    | .nak => .ok [base0, base1, p.seqNum]
    | .lqr => .ok (base0 :: base1 :: (putUint16 p.groupID ++ [p.losses, 0]))
    | .unknown _ _ => .error (.unknownType p.type)

def unmarshal (buf : Bytes) : Except HeaderError Packet :=
  if buf.length < 2 then .error .shortBase
  else
    let b := fun i => buf.getD i 0
    let pType := PacketType.ofByte (b 0 >>> 4)
    let streamID := uint16 (b 0 &&& 0x0F) (b 1)
    match pType with
    | .connect | .connErr =>
      if buf.length < 3 then .error (.shortLength pType)
      else
        let length := (b 2).toNat
        if buf.length < 3 + length then .error (.shortAddress pType)
        else .ok { type := pType, streamID, addr := (buf.drop 3).take length }
    | .connAck | .close | .reset => .ok { type := pType, streamID }
    | .data =>
      if buf.length < 6 then .error .shortData
      else .ok { type := pType, streamID, seqNum := b 2, groupID := uint16 (b 3) (b 4),
                 idx := b 5 >>> 3, isParity := decide (b 5 &&& 0x07 = 2), payload := buf.drop 6 }
    | .nak =>
      if buf.length < 3 then .error .shortNak
      else .ok { type := pType, streamID, seqNum := b 2 }
    | .lqr =>
      if buf.length < 6 then .error .shortLqr
      else .ok { type := pType, streamID, groupID := uint16 (b 2) (b 3), losses := b 4 }
    | .unknown _ _ => .error (.unknownType pType)

/-! ## Fields of the header bytes -/

theorem toNat_uint16 (hi lo : UInt8) : (uint16 hi lo).toNat = hi.toNat * 256 + lo.toNat := by
  have hhi := hi.toNat_lt
  have hlo := lo.toNat_lt
  have hshift : (hi.toUInt16 <<< 8).toNat = hi.toNat <<< 8 := by
    simp only [UInt16.toNat_shiftLeft, UInt8.toNat_toUInt16, Nat.shiftLeft_eq]
    rw [show (8 : UInt16).toNat % 16 = 8 from rfl]
    omega
  rw [uint16, UInt16.toNat_or, hshift, UInt8.toNat_toUInt16,
    ← Nat.shiftLeft_add_eq_or_of_lt (by omega), Nat.shiftLeft_eq]

theorem uint16_putUint16 (v : UInt16) : uint16 (v >>> 8).toUInt8 v.toUInt8 = v := by
  have hv := v.toNat_lt
  apply UInt16.toNat_inj.mp
  rw [toNat_uint16, UInt16.toNat_toUInt8, UInt16.toNat_toUInt8, UInt16.toNat_shiftRight,
    show (8 : UInt16).toNat % 16 = 8 from rfl, Nat.shiftRight_eq_div_pow]
  omega

theorem and_mask (b : UInt8) : b &&& 255 = b := by
  have hb := b.toNat_lt
  apply UInt8.toNat_inj.mp
  rw [UInt8.toNat_and, show (255 : UInt8).toNat = 2 ^ 8 - 1 from rfl,
    Nat.and_two_pow_sub_one_eq_mod, Nat.mod_eq_of_lt hb]

theorem high_byte_lt {v : UInt16} (h : ¬ v > 0x0FFF) : (v >>> 8).toUInt8 < 16 := by
  have hv : v.toNat ≤ 0x0FFF := by simpa [UInt16.le_iff_toNat_le] using h
  rw [UInt8.lt_iff_toNat_lt]
  simp only [UInt16.toNat_toUInt8, UInt16.toNat_shiftRight]
  rw [show (8 : UInt16).toNat % 16 = 8 from rfl, Nat.shiftRight_eq_div_pow,
    show (16 : UInt8).toNat = 16 from rfl]
  omega

/-- A byte packed from a high field and a low field of `w` bits. -/
theorem toNat_pack (hi lo : UInt8) (w : Nat) (hw : w < 8) (hlo : lo.toNat < 2 ^ w)
    (hhi : hi.toNat * 2 ^ w < 256) :
    ((hi <<< UInt8.ofNat w) ||| lo).toNat = hi.toNat * 2 ^ w + lo.toNat := by
  have hshift : (hi <<< UInt8.ofNat w).toNat = hi.toNat <<< w := by
    rw [UInt8.toNat_shiftLeft, UInt8.toNat_ofNat', Nat.mod_mod_of_dvd _ (by decide),
      Nat.mod_eq_of_lt hw, Nat.shiftLeft_eq, Nat.mod_eq_of_lt hhi]
  rw [UInt8.toNat_or, hshift, ← Nat.shiftLeft_add_eq_or_of_lt hlo, Nat.shiftLeft_eq]

theorem nibble_high {t h : UInt8} (ht : t < 16) (hh : h < 16) : ((t <<< 4) ||| h) >>> 4 = t := by
  have ht' : t.toNat < 16 := UInt8.lt_iff_toNat_lt.mp ht
  have hh' : h.toNat < 16 := UInt8.lt_iff_toNat_lt.mp hh
  have hp := toNat_pack t h 4 (by omega) (by omega) (by omega)
  apply UInt8.toNat_inj.mp
  rw [UInt8.toNat_shiftRight, show (4 : UInt8) = UInt8.ofNat 4 from rfl, hp,
    show (UInt8.ofNat 4).toNat % 8 = 4 from rfl, Nat.shiftRight_eq_div_pow]
  omega

theorem nibble_low {t h : UInt8} (ht : t < 16) (hh : h < 16) : ((t <<< 4) ||| h) &&& 0x0F = h := by
  have ht' : t.toNat < 16 := UInt8.lt_iff_toNat_lt.mp ht
  have hh' : h.toNat < 16 := UInt8.lt_iff_toNat_lt.mp hh
  have hp := toNat_pack t h 4 (by omega) (by omega) (by omega)
  apply UInt8.toNat_inj.mp
  rw [UInt8.toNat_and, show (4 : UInt8) = UInt8.ofNat 4 from rfl, hp,
    show (0x0F : UInt8).toNat = 2 ^ 4 - 1 from rfl, Nat.and_two_pow_sub_one_eq_mod]
  omega

theorem idx_field {i t : UInt8} (hi : i < 32) (ht : t < 8) : ((i <<< 3) ||| t) >>> 3 = i := by
  have hi' : i.toNat < 32 := UInt8.lt_iff_toNat_lt.mp hi
  have ht' : t.toNat < 8 := UInt8.lt_iff_toNat_lt.mp ht
  have hp := toNat_pack i t 3 (by omega) (by omega) (by omega)
  apply UInt8.toNat_inj.mp
  rw [UInt8.toNat_shiftRight, show (3 : UInt8) = UInt8.ofNat 3 from rfl, hp,
    show (UInt8.ofNat 3).toNat % 8 = 3 from rfl, Nat.shiftRight_eq_div_pow]
  omega

theorem parity_field {i t : UInt8} (hi : i < 32) (ht : t < 8) : ((i <<< 3) ||| t) &&& 0x07 = t := by
  have hi' : i.toNat < 32 := UInt8.lt_iff_toNat_lt.mp hi
  have ht' : t.toNat < 8 := UInt8.lt_iff_toNat_lt.mp ht
  have hp := toNat_pack i t 3 (by omega) (by omega) (by omega)
  apply UInt8.toNat_inj.mp
  rw [UInt8.toNat_and, show (3 : UInt8) = UInt8.ofNat 3 from rfl, hp,
    show (0x07 : UInt8).toNat = 2 ^ 3 - 1 from rfl, Nat.and_two_pow_sub_one_eq_mod]
  omega

theorem PacketType.ofByte_toByte (t : PacketType) : ofByte t.toByte = t := by
  cases t with
  | unknown code h =>
    have hne : ∀ c : UInt8, c < 8 → code ≠ c := by
      intro c hc he
      subst he
      exact absurd h (UInt8.not_le.mpr hc)
    simp only [ofByte, toByte, hne 0x0 (by decide), hne 0x1 (by decide), hne 0x2 (by decide),
      hne 0x3 (by decide), hne 0x4 (by decide), hne 0x5 (by decide), hne 0x6 (by decide),
      hne 0x7 (by decide), h, ↓reduceIte, ↓reduceDIte]
  | _ => rfl

theorem PacketType.toByte_lt {t : PacketType} (h : ∀ code hc, t ≠ .unknown code hc) :
    t.toByte < 16 := by
  cases t with
  | unknown code hc => exact absurd rfl (h code hc)
  | _ => decide

/-! ## Round trips -/

/-- The base header of an encodable packet is read back. -/
theorem base_fields {t : PacketType} {id : UInt16} (hid : ¬ id > 0x0FFF)
    (ht : ∀ code hc, t ≠ .unknown code hc) :
    PacketType.ofByte (((t.toByte <<< 4) ||| (id >>> 8).toUInt8) >>> 4) = t ∧
      uint16 (((t.toByte <<< 4) ||| (id >>> 8).toUInt8) &&& 0x0F) (id.toUInt8 &&& 0xFF) = id := by
  have h16 := PacketType.toByte_lt ht
  have hhi := high_byte_lt hid
  constructor
  · rw [nibble_high h16 hhi, PacketType.ofByte_toByte]
  · rw [nibble_low h16 hhi, and_mask, uint16_putUint16]

/-- A DATA packet cut to a receive buffer of `6 + n` bytes arrives with its
header intact and its payload cut to `n` bytes. -/
theorem unmarshal_marshal_data {p : Packet} {buf : Bytes} (hm : marshal p = .ok buf)
    (ht : p.type = .data) (hi : p.idx < 32) (n : Nat) :
    unmarshal (buf.take (6 + n)) =
      .ok { type := .data, streamID := p.streamID, seqNum := p.seqNum, groupID := p.groupID,
            idx := p.idx, isParity := p.isParity, payload := p.payload.take n } := by
  unfold marshal at hm
  split at hm
  · cases hm
  · rename_i hid
    obtain ⟨hb, hs⟩ := base_fields (t := .data) hid (by simp)
    simp only [ht, Except.ok.injEq] at hm
    subst hm
    have htv : ((if p.isParity then 2 else 1 : UInt8) &&& 0x07) = if p.isParity then 2 else 1 := by
      split <;> rfl
    have hlt : (if p.isParity then 2 else 1 : UInt8) < 8 := by split <;> decide
    rw [show 6 + n = n + 6 by omega]
    simp only [putUint16, List.cons_append, List.nil_append, List.take_succ_cons, unmarshal, htv]
    have h2 : ¬ min n p.payload.length + 1 + 1 + 1 + 1 + 1 + 1 < 2 := by omega
    have h6 : ¬ min n p.payload.length + 1 + 1 + 1 + 1 + 1 + 1 < 6 := by omega
    simp [hb, hs, uint16_putUint16, idx_field hi hlt, parity_field hi hlt, h2, h6]

theorem length_marshal_data {p : Packet} {buf : Bytes} (hm : marshal p = .ok buf)
    (ht : p.type = .data) : buf.length = 6 + p.payload.length := by
  unfold marshal at hm
  split at hm
  · cases hm
  · simp only [ht, Except.ok.injEq] at hm
    subst hm
    simp [putUint16]
    omega

/-- Packets without an address or a payload are at most six bytes long. -/
theorem length_marshal_short {p : Packet} {buf : Bytes} (hm : marshal p = .ok buf)
    (ht : p.type = .close ∨ p.type = .reset ∨ p.type = .nak ∨ p.type = .lqr ∨ p.type = .connAck) :
    buf.length ≤ 6 := by
  unfold marshal at hm
  split at hm
  · cases hm
  · rcases ht with ht | ht | ht | ht | ht
    all_goals
      simp only [ht, Except.ok.injEq] at hm
      subst hm
      simp [putUint16]

theorem unmarshal_marshal_data_whole {p : Packet} {buf : Bytes} (hm : marshal p = .ok buf)
    (ht : p.type = .data) (hi : p.idx < 32) :
    unmarshal buf =
      .ok { type := .data, streamID := p.streamID, seqNum := p.seqNum, groupID := p.groupID,
            idx := p.idx, isParity := p.isParity, payload := p.payload } := by
  have h := unmarshal_marshal_data hm ht hi p.payload.length
  rwa [← length_marshal_data hm ht, List.take_length, List.take_length] at h

theorem unmarshal_marshal_nak {id : UInt16} {seq : UInt8} {buf : Bytes}
    (hm : marshal { type := .nak, streamID := id, seqNum := seq } = .ok buf) :
    unmarshal buf = .ok { type := .nak, streamID := id, seqNum := seq } := by
  unfold marshal at hm
  split at hm
  · cases hm
  · rename_i hid
    obtain ⟨hb, hs⟩ := base_fields (t := .nak) hid (by simp)
    simp only [Except.ok.injEq] at hm
    subst hm
    simp [unmarshal, hb, hs]

theorem unmarshal_marshal_lqr {id grp : UInt16} {losses : UInt8} {buf : Bytes}
    (hm : marshal { type := .lqr, streamID := id, groupID := grp, losses } = .ok buf) :
    unmarshal buf = .ok { type := .lqr, streamID := id, groupID := grp, losses } := by
  unfold marshal at hm
  split at hm
  · cases hm
  · rename_i hid
    obtain ⟨hb, hs⟩ := base_fields (t := .lqr) hid (by simp)
    simp only [Except.ok.injEq] at hm
    subst hm
    simp [unmarshal, putUint16, hb, hs, uint16_putUint16]

/-- The packets that are a base header and nothing else. -/
theorem unmarshal_marshal_base {t : PacketType} {id : UInt16} {buf : Bytes}
    (ht : t = .connAck ∨ t = .close ∨ t = .reset)
    (hm : marshal { type := t, streamID := id } = .ok buf) :
    unmarshal buf = .ok { type := t, streamID := id } := by
  unfold marshal at hm
  split at hm
  · cases hm
  · rename_i hid
    obtain ⟨hb, hs⟩ := base_fields (t := t) hid (by rcases ht with rfl | rfl | rfl <;> simp)
    rcases ht with rfl | rfl | rfl
    all_goals
      simp only [Except.ok.injEq] at hm
      subst hm
      simp [unmarshal, hb, hs]

/-- CONNECT and CONN_ERR, the packets with an address. -/
theorem unmarshal_marshal_addr {t : PacketType} {id : UInt16} {addr buf : Bytes}
    (ht : t = .connect ∨ t = .connErr)
    (hm : marshal { type := t, streamID := id, addr } = .ok buf) :
    unmarshal buf = .ok { type := t, streamID := id, addr } ∧ buf.length ≤ 258 := by
  unfold marshal at hm
  split at hm
  · cases hm
  · rename_i hid
    obtain ⟨hb, hs⟩ := base_fields (t := t) hid (by rcases ht with rfl | rfl <;> simp)
    rcases ht with rfl | rfl
    all_goals
      simp only at hm
      split at hm
      · cases hm
      · rename_i hlen
        have hmod : addr.length % 256 = addr.length := Nat.mod_eq_of_lt (by omega)
        simp only [Except.ok.injEq] at hm
        subst hm
        have h2 : ¬ addr.length + 1 + 1 + 1 < 2 := by omega
        have h3 : ¬ addr.length + 1 + 1 + 1 < 3 := by omega
        have haddr : ¬ addr.length + 1 + 1 + 1 < 3 + addr.length := by omega
        refine ⟨?_, by simp only [List.length_cons]; omega⟩
        simp [unmarshal, hb, hs, hmod, h2, h3, haddr]

end TcpPep.Protocol
