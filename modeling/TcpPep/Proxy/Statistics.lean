import TcpPep.Lib.Watch
import TcpPep.Proxy.Link

/-!
The statistics of a session: the atomic counters of `proxy/session.go` that `GetMonitorStats`
reports.

`sendRawUDP` counts what a session sends, the demultiplexers call `RecordRx` for what they hand
to it, `HandleNak` counts the retransmissions and `HandleLQR` stores the last reported losses.
Nothing ties the counters of the two ends to each other but what happens on the network. A
`Tally` keeps both ends' counters beside a link, with the datagrams the network has lost and
those it has delivered again.

* `Counters`: the counters and what changes them;
* `Tally.note`: what a step of the link adds to them;
* `Mailed`: whatever is on the network can be read by its receiver, whole;
* `Tally.Agrees`: what one end has sent, the other has counted, or the network still has or lost;
* `statistics_agree`: the invariant over every run.
-/

namespace TcpPep

open Protocol Fec FiniteMap ErasureCode Events

/-! ## The counters -/

structure Counters where
  txBytes : UInt64 := 0
  rxBytes : UInt64 := 0
  txPackets : UInt64 := 0
  rxPackets : UInt64 := 0
  losses : UInt32 := 0
  txRetransmissions : UInt64 := 0
  deriving DecidableEq

namespace Counters

/-- The counting part of `sendRawUDP`. -/
def sendRawUDP (c : Counters) (data : Bytes) : Counters :=
  { c with txPackets := c.txPackets + 1, txBytes := c.txBytes + UInt64.ofNat data.length }

def recordRx (c : Counters) (n : Nat) : Counters :=
  { c with rxPackets := c.rxPackets + 1, rxBytes := c.rxBytes + UInt64.ofNat n }

/-- `HandleLQR` stores the losses of a block that is outstanding. -/
def handleLQR (c : Counters) (s : Sender) (p : Packet) : Counters :=
  match s.txBlocks.lookup p.groupID with
  | none => c
  | some block => if block.lqrRecved then c else { c with losses := p.losses.toUInt32 }

/-- The unlocked part of `HandleNak`. -/
def handleNak (c : Counters) (cachedPkt : Packet) : Counters :=
  match marshal cachedPkt with
  | .ok _ => { c with txRetransmissions := c.txRetransmissions + 1 }
  | .error _ => c

/-- What a step of the session does to its counters. -/
def step (c : Counters) (s : Session) (e : SessionEvent) (out : List Bytes) : Counters :=
  let c :=
    match e with
    | .recv p => if p.type = .lqr then c.handleLQR s.tx p else c
    | .finishHandler =>
      match s.demux with
      | .retransmit p => c.handleNak p
      | _ => c
    | _ => c
  out.foldl sendRawUDP c

/-! ### What a step changes -/

theorem foldl_sendRawUDP (out : List Bytes) (c : Counters) :
    out.foldl sendRawUDP c =
      { c with txPackets := c.txPackets + UInt64.ofNat out.length
               txBytes := c.txBytes + UInt64.ofNat out.flatten.length } := by
  induction out generalizing c with
  | nil => simp
  | cons a out ih =>
    rw [List.foldl_cons, ih]
    simp only [sendRawUDP, List.length_cons, List.flatten_cons, List.length_append,
      UInt64.ofNat_add, UInt64.add_assoc]
    congr 1
    grind

theorem handleLQR_eq (c : Counters) (s : Sender) (p : Packet) :
    ∃ losses, c.handleLQR s p = { c with losses } := by
  unfold handleLQR
  split
  · exact ⟨c.losses, rfl⟩
  · split
    · exact ⟨c.losses, rfl⟩
    · exact ⟨_, rfl⟩

theorem handleNak_eq (c : Counters) (p : Packet) :
    ∃ r ≤ 1, c.handleNak p =
      { c with txRetransmissions := c.txRetransmissions + UInt64.ofNat r } := by
  unfold handleNak
  split
  · exact ⟨1, Nat.le_refl _, rfl⟩
  · exact ⟨0, Nat.zero_le _, by simp⟩

end Counters

/-- `HandleNak` has a packet to send. -/
def Session.resending (s : Session) : Nat :=
  match s.demux with
  | .retransmit _ => 1
  | _ => 0

/-- The retransmissions a step may count. -/
def Session.counts (s : Session) : SessionEvent → Nat
  | .finishHandler => s.resending
  | _ => 0

/-- What a step of the session does to its counters: it sends `out`, and counts a retransmission at
the end of `HandleNak` only. -/
theorem Counters.step_eq (c : Counters) (s : Session) (e : SessionEvent) (out : List Bytes) :
    ∃ losses, ∃ r ≤ s.counts e, c.step s e out =
      { c with losses
               txRetransmissions := c.txRetransmissions + UInt64.ofNat r
               txPackets := c.txPackets + UInt64.ofNat out.length
               txBytes := c.txBytes + UInt64.ofNat out.flatten.length } := by
  unfold step
  simp only [foldl_sendRawUDP]
  split
  · split
    · obtain ⟨losses, heq⟩ := c.handleLQR_eq s.tx ‹Packet›
      exact ⟨losses, 0, Nat.zero_le _, by rw [heq]; simp⟩
    · exact ⟨c.losses, 0, Nat.zero_le _, by simp⟩
  · split
    · rename_i p hd
      obtain ⟨r, hr, heq⟩ := c.handleNak_eq p
      exact ⟨c.losses, r, by simpa [Session.counts, Session.resending, hd] using hr, by rw [heq]⟩
    · exact ⟨c.losses, 0, Nat.zero_le _, by simp⟩
  · exact ⟨c.losses, 0, Nat.zero_le _, by simp⟩

/-- The NAKs a step hands to the session. -/
def SessionEvent.naks : SessionEvent → Nat
  | .recv p => if p.type = .nak then 1 else 0
  | _ => 0

theorem Session.handle_resending {rs : ReedSolomon} (cfg : Config) {s : Session} (p : Packet)
    (hd : s.demux = .idle) :
    (s.handle rs cfg p).resending ≤ (SessionEvent.recv p).naks := by
  have hnone : s.resending = 0 := by simp [resending, hd]
  unfold handle
  split
  · exact Nat.le_trans (Nat.le_of_eq hnone) (Nat.zero_le _)
  · rename_i ht
    simp only [SessionEvent.naks, ht, if_true]
    split
    · exact Nat.le_refl _
    · rw [hnone]
      exact Nat.zero_le _
  · exact Nat.le_trans (Nat.le_of_eq hnone) (Nat.zero_le _)
  · exact Nat.zero_le _
  · exact Nat.le_trans (Nat.le_of_eq hnone) (Nat.zero_le _)
  · exact Nat.le_trans (Nat.le_of_eq hnone) (Nat.zero_le _)

theorem Session.finishHandler_resending (s : Session) : s.finishHandler.resending = 0 := by
  unfold finishHandler
  split
  · rename_i hd
    simp [resending, hd]
  · rfl
  · simp only
    split <;> rfl

/-- A retransmission is under way only after a NAK. -/
theorem Session.step_resending {rs : ReedSolomon} {cfg : Config} {s s' : Session} {e : SessionEvent}
    {out : List Bytes} (hs : s.step rs cfg e = some (s', out)) :
    s.counts e + s'.resending ≤ s.resending + e.naks := by
  cases stepped_of_step hs with
  | recv p hd =>
    have hle := @handle_resending rs cfg s p hd
    simp only [counts]
    omega
  | finishHandler hd =>
    rw [finishHandler_resending]
    exact Nat.le_refl _
  | launch | start | tx | txClose | rx | cancel => exact Nat.le_of_eq (Nat.zero_add _)

/-! ## Both ends -/

/-- The counters of both ends, and what the network has done to the datagrams on their way to each
end. -/
structure Tally where
  counters : Side → Counters := fun _ => {}
  /-- datagrams that were lost -/
  lost : Side → List Bytes := fun _ => []
  /-- datagrams that were delivered and stayed on their way -/
  copied : Side → List Bytes := fun _ => []
  /-- NAKs handed to the session -/
  naks : Side → Nat := fun _ => 0

namespace Tally

variable (rs : ReedSolomon) (lc : LinkConfig)

/-- A step of the session at `x` that sends `out`. -/
def act (t : Tally) (s : Link) (x : Side) (e : SessionEvent) (out : List Bytes) : Tally :=
  { t with counters := Function.update t.counters x ((t.counters x).step (s.session x) e out)
           naks := Function.update t.naks x (t.naks x + e.naks) }

/-- The demultiplexer at `y` has read the `n` bytes of a packet for its session. -/
def recordRx (t : Tally) (y : Side) (n : Nat) : Tally :=
  { t with counters := Function.update t.counters y ((t.counters y).recordRx n) }

/-- What a step of the link adds. -/
def note (s : Link) : LinkEvent → Tally → Tally
  | .act x e, t =>
    match (s.session x).step rs (lc.side x) e with
    | none => t
    | some (_, out) => t.act s x e out
  | .deliver y i again, t =>
    match (s.net y)[i]? with
    | none => t
    | some a =>
      let t := if again then { t with copied := Function.update t.copied y (t.copied y ++ [a]) }
      else t
      match readUDP a with
      | .error _ => t
      | .ok p =>
        if p.streamID = lc.streamID then (t.recordRx y (a.take 2048).length).act s y (.recv p) []
          else t
  | .drop y i, t =>
    match (s.net y)[i]? with
    | none => t
    | some a => { t with lost := Function.update t.lost y (t.lost y ++ [a]) }

end Tally

/-- The link with its tally. -/
def tallied (rs : ReedSolomon) (lc : LinkConfig) : Machine (Link × Tally) LinkEvent :=
  (link rs lc).watched {} (Tally.note rs lc)

/-! ## What is on the network can be read -/

/-- What a session sends fits the receive buffer of the peer. -/
theorem Emitted.length_le {rs : ReedSolomon} {cfg : Config} {n : Nat} {code : Code UInt8 cfg.fecK n}
    {s : Sender} (himpl : Implements rs code) (hv : cfg.Valid n) (hi : s.Inv rs cfg) {a : Bytes}
    (ha : Emitted cfg s a) :
    a.length ≤ 2048 := by
  have hshort : a.length ≤ 6 → a.length ≤ 2048 := fun hle => Nat.le_trans hle (by decide)
  cases ha with
  | block h =>
    obtain ⟨b, p, ⟨blk, hb, hp⟩, ha⟩ := h
    have hfl := hi.1.blocks blk (List.mem_of_getElem? hb)
    have hm := hfl.m_le
    have hrows := hv.le_rows
    have hidx32 := hv.le_idx
    have hfits := hv.fits
    obtain ⟨-, -, hpay⟩ := packet_shard himpl hfl.toWF hv.one_le (by omega) (by omega) hp
    obtain ⟨parityShards, i, -, -, -, hpkt⟩ := mem_packetsAt hp
    have hlen : p.payload.length ≤ maxPayload cfg + 2 := by
      rw [hpay]
      exact Nat.le_trans (padded_slot hfl.length_data (Or.inl rfl)).1 (maxLen_le hfl.short)
    rw [length_marshal_data ha (by rw [hpkt])]
    omega
  | close h ha => exact hshort (length_marshal_short ha (Or.inl rfl))
  | reset h ha => exact hshort (length_marshal_short ha (Or.inr (Or.inl rfl)))
  | lqr g losses ha => exact hshort (length_marshal_short ha (by simp [Receiver.lqrPacket]))
  | nak q ha => exact hshort (length_marshal_short ha (by simp [Receiver.nakPacket]))

/-- The sending halves are sound, and whatever is on its way was sent by the other end. -/
structure Mailed (rs : ReedSolomon) (lc : LinkConfig) (s : Link) : Prop where
  tx : ∀ x, (s.session x).TxInv rs (lc.side x)
  net : ∀ x, ∀ a ∈ s.net (Side.other x), Emitted (lc.side x) (s.session x).tx a

section Mailed

variable {rs : ReedSolomon} {lc : LinkConfig} {n : Nat} {code : Code UInt8 lc.fecK n} {s s' : Link}

theorem Mailed.feed (himpl : Implements rs code) (hv : ∀ x, (lc.side x).Valid n)
    (h : Mailed rs lc s) {y : Side} {e : SessionEvent} (hs : s.feed rs lc y e = some s') :
    Mailed rs lc s' := by
  simp only [Link.feed, Option.map_eq_some_iff, Prod.exists] at hs
  obtain ⟨sy, out, hstep, rfl⟩ := hs
  obtain ⟨htx, hext, hout⟩ := Session.step_tx himpl (hv y) hstep (h.tx y)
  constructor
  · intro z
    rcases y.eq_or_eq_other z with rfl | rfl
    · simpa using htx
    · simpa using h.tx y.other
  · intro z a ha
    rcases y.eq_or_eq_other z with rfl | rfl
    · simp only [Function.update_self, List.mem_append] at ha ⊢
      rcases ha with ha | ha
      · exact (h.net z a ha).mono hext
      · exact hout a ha
    · simp only [Side.other_other, ne_eq, Side.ne_other, not_false_eq_true, Function.update_of_ne,
        Side.other_ne] at ha ⊢
      exact h.net y.other a (by rwa [Side.other_other])

theorem Mailed.of_net (h : Mailed rs lc s) (hses : s'.session = s.session)
    (hnet : ∀ x, ∀ a ∈ s'.net x, a ∈ s.net x) : Mailed rs lc s' := by
  constructor
  · rw [hses]
    exact h.tx
  · rw [hses]
    exact fun x a ha => h.net x a (hnet _ a ha)

/-- What is on its way was sent by the other end and stays readable for its receiver. -/
theorem Mailed.step (himpl : Implements rs code) (hv : ∀ x, (lc.side x).Valid n)
    (h : Mailed rs lc s) {e : LinkEvent} (hs : s.step rs lc e = some s') : Mailed rs lc s' := by
  rcases Link.step_cases hs with ⟨x, ev, -, -, hfeed⟩ |
    ⟨y, i, again, a, p, s₀, -, -, -, hses, hnet, hfeed⟩ | ⟨hses, hnet⟩
  · exact h.feed himpl hv hfeed
  · exact (h.of_net hses hnet).feed himpl hv hfeed
  · exact h.of_net hses hnet

theorem mailed_of_reach (himpl : Implements rs code) (hv : ∀ x, (lc.side x).Valid n)
    {ok : Link → LinkEvent → Prop} (hr : Reach (link rs lc) ok s) : Mailed rs lc s := by
  refine hr.invariant (I := Mailed rs lc) ?_ fun s e s' h _ hs => h.step himpl hv hs
  exact ⟨fun x => Session.newSession_txInv rs (hv x), fun x a ha => by cases ha⟩

/-- A datagram on its way to `y` is read whole, and is for the session there. -/
theorem Mailed.read (himpl : Implements rs code) (hv : ∀ x, (lc.side x).Valid n)
    (h : Mailed rs lc s) {y : Side} {a : Bytes} (ha : a ∈ s.net y) :
    ∃ p, readUDP a = .ok p ∧ p.streamID = lc.streamID ∧ a.length ≤ 2048 := by
  have hem : Emitted (lc.side y.other) (s.session y.other).tx a :=
    h.net y.other a (by rwa [Side.other_other])
  obtain ⟨p, hread, hid, -⟩ := hem.read himpl (hv y.other) (h.tx y.other).inv
  exact ⟨p, hread, hid, hem.length_le himpl (hv y.other) (h.tx y.other).inv⟩

end Mailed

/-! ## The two ends agree -/

/-- What the sender `tx` has counted, and what the network has copied, is what the receiver `rx` has
counted, what was lost and what is still on its way. -/
structure Tallies (tx rx : Counters) (lost copied net : List Bytes) : Prop where
  packets : tx.txPackets + UInt64.ofNat copied.length =
    rx.rxPackets + UInt64.ofNat lost.length + UInt64.ofNat net.length
  bytes : tx.txBytes + UInt64.ofNat copied.flatten.length =
    rx.rxBytes + UInt64.ofNat lost.flatten.length + UInt64.ofNat net.flatten.length

namespace Tallies

variable {tx rx : Counters} {lost copied net net' : List Bytes} {a : Bytes}

theorem send (h : Tallies tx rx lost copied net) (out : List Bytes) :
    Tallies
      { tx with
        txPackets := tx.txPackets + UInt64.ofNat out.length
        txBytes := tx.txBytes + UInt64.ofNat out.flatten.length }
      rx lost copied (net ++ out) := by
  obtain ⟨hp, hb⟩ := h
  constructor
  · simp only [List.length_append, UInt64.ofNat_add]
    grind
  · simp only [List.flatten_append, List.length_append, UInt64.ofNat_add]
    grind

theorem copy (h : Tallies tx rx lost copied net) :
    Tallies tx (rx.recordRx a.length) lost (copied ++ [a]) net := by
  obtain ⟨hp, hb⟩ := h
  constructor
  · simp only [Counters.recordRx, List.length_append, List.length_singleton, UInt64.ofNat_add]
    grind
  · simp only [Counters.recordRx, List.flatten_append, List.flatten_singleton, List.length_append,
      UInt64.ofNat_add]
    grind

theorem off (hperm : (a :: net').Perm net) :
    UInt64.ofNat net.length = UInt64.ofNat net'.length + 1 ∧
      UInt64.ofNat net.flatten.length =
        UInt64.ofNat a.length + UInt64.ofNat net'.flatten.length := by
  have hlen := hperm.length_eq
  have hbytes := hperm.flatten.length_eq
  rw [← hlen, ← hbytes]
  simp [UInt64.ofNat_add]

theorem arrive (h : Tallies tx rx lost copied net) (hperm : (a :: net').Perm net) :
    Tallies tx (rx.recordRx a.length) lost copied net' := by
  obtain ⟨hp, hb⟩ := h
  obtain ⟨hlen, hbytes⟩ := off hperm
  constructor
  · simp only [Counters.recordRx]
    grind
  · simp only [Counters.recordRx]
    grind

theorem lose (h : Tallies tx rx lost copied net) (hperm : (a :: net').Perm net) :
    Tallies tx rx (lost ++ [a]) copied net' := by
  obtain ⟨hp, hb⟩ := h
  obtain ⟨hlen, hbytes⟩ := off hperm
  constructor
  · simp only [List.length_append, List.length_singleton, UInt64.ofNat_add]
    grind
  · simp only [List.flatten_append, List.flatten_singleton, List.length_append, UInt64.ofNat_add]
    grind

end Tallies

/-- **The invariant**, for each direction; and no retransmission without a NAK. -/
structure Tally.Agrees (s : Link) (t : Tally) : Prop where
  even : ∀ y : Side, Tallies (t.counters y.other) (t.counters y) (t.lost y) (t.copied y) (s.net y)
  resent : ∀ x : Side, ∃ r, (t.counters x).txRetransmissions = UInt64.ofNat r ∧
    r + (s.session x).resending ≤ t.naks x

section Agrees

variable {rs : ReedSolomon} {lc : LinkConfig} {s s' : Link} {t : Tally}

theorem Tally.Agrees.act (h : t.Agrees s) {x : Side} {e : SessionEvent} {session : Session}
    {out : List Bytes} (hs : (s.session x).step rs (lc.side x) e = some (session, out)) :
    (t.act s x e out).Agrees
      { session := Function.update s.session x session
        net := Function.update s.net x.other (s.net x.other ++ out) } := by
  obtain ⟨losses, r, hr, heq⟩ := (t.counters x).step_eq (s.session x) e out
  have hres := Session.step_resending hs
  constructor
  · intro y
    have heven := h.even y
    rcases x.eq_or_eq_other y with rfl | rfl
    · simp only [Tally.act, heq, Function.update_self, ne_eq, Side.other_ne, Side.ne_other,
        not_false_eq_true, Function.update_of_ne]
      exact ⟨heven.packets, heven.bytes⟩
    · rw [Side.other_other] at heven
      have hsend := heven.send out
      simp only [Tally.act, heq, Function.update_self, ne_eq, Side.other_ne, Side.other_other,
        not_false_eq_true, Function.update_of_ne]
      exact ⟨hsend.packets, hsend.bytes⟩
  · intro z
    obtain ⟨m, hm, hle⟩ := h.resent z
    rcases x.eq_or_eq_other z with rfl | rfl
    · refine ⟨m + r, ?_, ?_⟩
      · simp only [Tally.act, heq, Function.update_self, hm, UInt64.ofNat_add]
      · simp only [Tally.act, Function.update_self]
        omega
    · exact ⟨m, by simpa [Tally.act] using hm, by simpa [Tally.act] using hle⟩

/-- A change on the way to `y`, and of what is counted there as received. -/
theorem Tally.Agrees.toward (h : t.Agrees s) {y : Side} {rx : Counters}
    {lost copied net : List Bytes} (heven : Tallies (t.counters y.other) rx lost copied net)
    (hrx : rx = { t.counters y with rxPackets := rx.rxPackets, rxBytes := rx.rxBytes }) :
    Tally.Agrees { s with net := Function.update s.net y net }
      { t with counters := Function.update t.counters y rx
               lost := Function.update t.lost y lost
               copied := Function.update t.copied y copied } := by
  constructor
  · intro z
    rcases y.eq_or_eq_other z with rfl | rfl
    · simpa using heven
    · have hback := h.even y.other
      rw [Side.other_other] at hback
      simp only [Side.other_other, Function.update_self, ne_eq, Side.other_ne, not_false_eq_true,
        Function.update_of_ne]
      rw [hrx]
      exact ⟨hback.packets, hback.bytes⟩
  · intro z
    obtain ⟨m, hm, hle⟩ := h.resent z
    rcases y.eq_or_eq_other z with rfl | rfl
    · refine ⟨m, ?_, hle⟩
      simp only [Function.update_self]
      rw [hrx]
      exact hm
    · exact ⟨m, by simpa using hm, hle⟩

theorem Tally.Agrees.recordRx (h : t.Agrees s) {y : Side} {i : Nat} {a : Bytes}
    (hget : (s.net y)[i]? = some a) (again : Bool) :
    ((if again then { t with copied := Function.update t.copied y (t.copied y ++ [a]) }
      else t).recordRx y a.length).Agrees
      (if again then s else s.remove y i) := by
  obtain ⟨hi, rfl⟩ := List.getElem?_eq_some_iff.mp hget
  cases again with
  | true =>
    have hstay := h.toward ((h.even y).copy (a := (s.net y)[i])) rfl
    simpa [Tally.recordRx] using hstay
  | false =>
    have hgone := h.toward ((h.even y).arrive (List.getElem_cons_eraseIdx_perm hi)) rfl
    simpa [Tally.recordRx, Link.remove] using hgone

theorem Tally.Agrees.drop (h : t.Agrees s) {y : Side} {i : Nat} {a : Bytes}
    (hget : (s.net y)[i]? = some a) :
    Tally.Agrees (s.remove y i) { t with lost := Function.update t.lost y (t.lost y ++ [a]) } := by
  obtain ⟨hi, rfl⟩ := List.getElem?_eq_some_iff.mp hget
  have hgone := h.toward ((h.even y).lose (List.getElem_cons_eraseIdx_perm hi)) rfl
  simpa [Link.remove] using hgone

theorem Tally.Agrees.step {n : Nat} {code : Code UInt8 lc.fecK n} (himpl : Implements rs code)
    (hv : ∀ x, (lc.side x).Valid n) (hmail : Mailed rs lc s) (h : t.Agrees s) {e : LinkEvent}
    (hs : s.step rs lc e = some s') : (Tally.note rs lc s e t).Agrees s' := by
  cases e with
  | act x e =>
    have hfeed : s.feed rs lc x e = some s' := by
      cases e with
      | recv p => cases hs
      | _ => exact hs
    simp only [Link.feed, Option.map_eq_some_iff, Prod.exists] at hfeed
    obtain ⟨session, out, hstep, rfl⟩ := hfeed
    simp only [note, hstep]
    exact h.act hstep
  | deliver y i again =>
    simp only [Link.step] at hs
    split at hs
    · cases hs
    · rename_i a hget
      obtain ⟨p, hread, hid, hlen⟩ := hmail.read himpl hv (List.mem_of_getElem? hget)
      simp only [hread, hid, if_true, Link.feed, Option.map_eq_some_iff, Prod.exists] at hs
      obtain ⟨session, out, hstep, rfl⟩ := hs
      simp only [note, hget, hread, hid, if_true, List.take_of_length_le hlen]
      have harrive := h.recordRx hget again
      have hout : out = [] := by
        cases Session.stepped_of_step hstep with
        | recv p hd => rfl
      subst hout
      cases again with
      | true => exact harrive.act hstep
      | false => exact harrive.act hstep
  | drop y i =>
    simp only [Link.step, Option.ite_none_right_eq_some, Option.some.injEq] at hs
    obtain ⟨hi, rfl⟩ := hs
    have hget := List.getElem?_eq_getElem hi
    simp only [note, hget]
    exact h.drop hget

end Agrees

/-- **The statistics of the two ends agree.** However the network loses, copies and reorders
datagrams, and whatever the sessions do: the packets and the bytes one end has counted as sent are
those the other end has counted as received, up to what was lost, what was delivered more than once
and what is still on its way, modulo 2^64; and an end has not counted more retransmissions than it
was asked for. -/
theorem statistics_agree {rs : ReedSolomon} {lc : LinkConfig} {n : Nat}
    {code : Code UInt8 lc.fecK n} (himpl : Implements rs code) (hn : lc.fecK + lc.fecM ≤ n)
    (hlc : lc.Documented) {ok : Link × Tally → LinkEvent → Prop} {s : Link} {t : Tally}
    (hr : Reach (tallied rs lc) ok (s, t)) (y : Side) :
    (t.counters y.other).txPackets + UInt64.ofNat (t.copied y).length =
      (t.counters y).rxPackets + UInt64.ofNat (t.lost y).length + UInt64.ofNat (s.net y).length ∧
    (t.counters y.other).txBytes + UInt64.ofNat (t.copied y).flatten.length =
      (t.counters y).rxBytes + UInt64.ofNat (t.lost y).flatten.length + UInt64.ofNat
      (s.net y).flatten.length ∧
    ∃ r ≤ t.naks y, (t.counters y).txRetransmissions = UInt64.ofNat r := by
  have hv := hlc.valid hn
  have hinv : t.Agrees s := by
    refine @Reach.watched_invariant _ _ _ (link rs lc) (fun _ _ => True) _ _ ok (s,
      t) (fun s t => t.Agrees s) ?_ ?_
      (fun _ _ _ => trivial) hr
    · exact ⟨fun y => ⟨rfl, rfl⟩, fun x => ⟨0, rfl, Nat.le_refl _⟩⟩
    · intro s t e s' hreach h _ hs
      exact h.step himpl hv (mailed_of_reach himpl hv hreach) hs
  obtain ⟨r, heq, hle⟩ := hinv.resent y
  exact ⟨(hinv.even y).packets, (hinv.even y).bytes, r, Nat.le_trans (Nat.le_add_right _ _) hle,
    heq⟩

/-- Three packets are sent, one is lost and one arrives twice. -/
theorem statistics_agree_small :
    ∃ s t, Reach (tallied reedSolomonTwoOne smallLink) (fun _ _ => True) (s, t) ∧
      (t.counters .left).txPackets = 3 ∧ (t.counters .right).rxPackets = 3 ∧
      (t.lost .right).length = 1 ∧
      (t.counters .left).txBytes + UInt64.ofNat (t.copied .right).flatten.length =
        (t.counters .right).rxBytes + UInt64.ofNat (t.lost .right).flatten.length +
          UInt64.ofNat (s.net .right).flatten.length := by
  obtain ⟨⟨s, t⟩, hr, htx, hrx, hlost⟩ : ∃ st,
      Reach (tallied reedSolomonTwoOne smallLink) (fun _ _ => True) st ∧
      (st.2.counters .left).txPackets = 3 ∧ (st.2.counters .right).rxPackets = 3 ∧
      (st.2.lost .right).length = 1 :=
    Reach.exists_of_runOk _ smallRun (by decide +kernel)
  exact ⟨s, t, hr, htx, hrx, hlost,
    (@statistics_agree reedSolomonTwoOne smallLink 3 twoOne implements_twoOne (by decide)
    smallLink_documented _ s t hr .right).2.1⟩

end TcpPep
