import TcpPep.Proxy.Isolation
import TcpPep.Proxy.Link
import TcpPep.Proxy.Pair

/-!
Agreement of a client and a server on a connection.

The server answers a CONNECT whose StreamID it knows from the session it has,
and the client takes any CONN_ACK with the StreamID it waits for. So the two
agree on a connection only when nothing is left of an earlier one with its
StreamID.

* `PairInv`: what holds of every handshake that is running;
* `PairInv.step`: the step lemma;
* `handshake_agreement`: when a StreamID is given out only after both sides are done
  with it, a CONN_ACK comes from the session made for this very handshake;
* `handshake_stale`: a StreamID that the client has used up once round.
-/

namespace TcpPep

open Protocol Fec ErasureCode Events FiniteMap

/-! ## When a StreamID may be used again -/

/-- Nothing is left of an earlier connection with this StreamID: no handshake in the
client, no session, `handleConnect` or packet at work in the server, no CONN_ACK on its way. -/
structure Unused (s : Pair) (id : UInt16) : Prop where
  client : ∀ conn ∈ s.client.conns, conn.streamID = id → conn.stage.handshaking = false
  current : (s.server.stream id).current = none
  connects : (s.server.stream id).connects = []
  loop : s.server.loop.id ≠ some id
  acks : ∀ m ∈ s.toClient, ∀ p ∈ (readUDP m.2).toOption, p.type = .connAck → p.streamID ≠ id

instance (s : Pair) (id : UInt16) : Decidable (Unused s id) :=
  decidable_of_iff
    ((∀ conn ∈ s.client.conns, conn.streamID = id → conn.stage.handshaking = false) ∧
      (s.server.stream id).current = none ∧ (s.server.stream id).connects = [] ∧
      s.server.loop.id ≠ some id ∧
      ∀ m ∈ s.toClient, ∀ p ∈ (readUDP m.2).toOption, p.type = .connAck → p.streamID ≠ id)
    ⟨fun ⟨h₁, h₂, h₃, h₄, h₅⟩ => ⟨h₁, h₂, h₃, h₄, h₅⟩,
      fun ⟨h₁, h₂, h₃, h₄, h₅⟩ => ⟨h₁, h₂, h₃, h₄, h₅⟩⟩

/-- No connection after number `c` was given this StreamID. -/
def Latest (s : Pair) (c : Nat) (id : UInt16) : Prop :=
  ∀ r ∈ s.client.requests.drop (c + 1), r.2 ≠ id

instance (s : Pair) (c : Nat) (id : UInt16) : Decidable (Latest s c id) :=
  inferInstanceAs (Decidable (∀ r ∈ s.client.requests.drop (c + 1), r.2 ≠ id))

/-- The StreamID that the next connection would be given. -/
def Client.nextStreamID {τ : Type} (s : Client τ) : Option UInt16 :=
  (getNextStreamID s.sessions s.lastID).bind Prod.snd

/-- A StreamID is given out when it is unused, and no packet of an earlier connection with
it arrives at the server afterwards. -/
def Orderly (s : Pair) : PairEvent → Prop
  | .client (.accept _) => ∀ id ∈ s.client.nextStreamID, Unused s id
  | .deliverServer i _ =>
    ∀ m ∈ s.toServer[i]?, ∀ p ∈ (readUDP m.2).toOption, Latest s m.1 p.streamID
  | _ => True

instance (s : Pair) (e : PairEvent) : Decidable (Orderly s e) :=
  match e with
  -- named, since Mathlib would also decide it over all StreamIDs
  | .client (.accept _) => Option.decidableForallMem s.client.nextStreamID
  | .deliverServer i _ => inferInstanceAs (Decidable
      (∀ m ∈ s.toServer[i]?, ∀ p ∈ (readUDP m.2).toOption, Latest s m.1 p.streamID))
  | .client (.conn _ _) | .client (.recv _ _) | .client (.demux _) | .client
      (.cleanup _) | .server _
  | .deliverClient _ _ | .dropServer _ | .dropClient _ => .isTrue trivial

/-! ## Sessions that nothing has been sent to -/

/-- The receiving half as it is before the first DATA packet, when no block exists. -/
structure Untouched {k n : Nat} (code : Code UInt8 k n) (s : Session) : Prop where
  rx : RxInv code [] s.rx
  idle : s.launched = false → s.rx.writer = .idle

namespace Untouched

variable {rs : ReedSolomon} {pc : PepConfig} {n : Nat} {code : Code UInt8 pc.fecK n} {s : Session}

theorem new (id : UInt16) : Untouched code (newSession (pc.session id)) := by
  refine ⟨⟨rfl, Nat.zero_le _, ?_, rfl⟩, fun _ => rfl⟩
  intro g b hb
  simp [newSession] at hb

theorem close (h : Untouched code s) : Untouched code s.close := ⟨h.rx, h.idle⟩

theorem step (himpl : Implements rs code) (hv : ∀ id, (pc.session id).Valid n) {id : UInt16}
    {s' : Session} {e : SessionEvent} {sent : List Bytes} (h : Untouched code s)
    (hs : s.step rs (pc.session id) e = some (s', sent)) (hown : e.isOwn = true) :
    Untouched code s' := by
  let lc : LinkConfig :=
    { streamID := id, fecK := pc.fecK, fecM := pc.fecM, linkMTU := fun _ => pc.mtu,
      bandwidth := fun _ => pc.bandwidth }
  obtain ⟨hrx, hidle⟩ :=
    @Session.step_rx rs lc n code .left .left [] s s' e sent himpl (fun _ => hv id) (by simp) hs
    h.rx h.idle (by rintro p rfl; cases hown)
  exact ⟨hrx, hidle⟩

theorem written (h : Untouched code s) : s.rx.nextWriteGrp = 0 ∧ s.rx.written = 0 := by
  have hw : s.rx.written = 0 := Nat.le_zero.mp h.rx.le
  exact ⟨by rw [h.rx.next, hw]; rfl, hw⟩

end Untouched

/-! ## A handshake at the server -/

/-- Session `i` was made for connection `c`. -/
def Stream.At (st : Stream Nat) (c i : Nat) : Prop := ∀ o, st.served[i]? = some o → o.peer = c

/-- What the server does under the StreamID of a handshake, it does for connection `c`. -/
structure Stream.MadeBy {k n : Nat} (code : Code UInt8 k n) (c : Nat) (dest : Bytes)
    (st : Stream Nat) : Prop where
  connects : ∀ k ∈ st.connects, k.dest = dest ∧ k.clientAddr = c
  current : ∀ i, st.current = some i → st.At c i
  served : ∀ (i : Nat) (o : Served Nat), st.served[i]? = some o → o.peer = c →
    o.dest = dest ∧ Untouched code o.session

/-- The same of the whole server: for this StreamID the demultiplexer has at most a CONNECT. -/
structure Server.Serves {k n : Nat} (code : Code UInt8 k n) (c : Nat) (dest : Bytes) (id : UInt16)
    (s : Server Nat) : Prop where
  stream : (s.stream id).MadeBy code c dest
  loop : s.loop.id = some id →
    ∃ p rAddr i, s.loop = .found p rAddr i ∧ p.type = .connect ∧ (s.stream id).At c i

section Serves

variable {rs : ReedSolomon} {sc : PepConfig} {n : Nat} {code : Code UInt8 sc.fecK n} {c : Nat}
  {dest : Bytes} {id : UInt16} {st st' : Stream Nat} {s s' : Server Nat} {e : ServerEvent Nat}
  {out : List (Reply Nat)}

theorem Stream.Moved.current {ev : StreamEvent} (hm : Stream.Moved rs sc id st ev st' out) {i : Nat}
    (hi : st'.current = some i) : st.current = some i ∨ i = st.served.length := by
  cases hm with
  | register =>
    cases hi
    exact Or.inr (by simp)
  | cleanup => cases hi
  | dialOk | dialFail | sendAck | act => exact Or.inl hi

theorem Stream.At.moved {ev : StreamEvent} (hm : Stream.Moved rs sc id st ev st' out)
    (hc : ∀ k ∈ st.connects, k.dest = dest ∧ k.clientAddr = c) {i : Nat} (h : st.At c i) :
    st'.At c i := by
  intro o ho
  refine hm.served (Q := fun j o => j = i → o.peer = c) ?_ ?_ ?_ ?_ i o ho rfl
  · exact fun _ _ h => h
  · exact fun _ _ _ _ _ _ _ h => h
  · exact fun k hk _ => (hc k hk).2
  · rintro j o' ho' rfl
    exact h o' ho'

theorem Stream.MadeBy.moved (himpl : Implements rs code) (hv : ∀ id, (sc.session id).Valid n)
    {ev : StreamEvent} (hm : Stream.Moved rs sc id st ev st' out) (h : st.MadeBy code c dest) :
    st'.MadeBy code c dest := by
  refine ⟨?_, ?_, ?_⟩
  · intro k hk
    obtain ⟨k', hk', hdest, haddr⟩ := hm.connects hk
    exact hdest ▸ haddr ▸ h.connects k' hk'
  · intro i hi
    rcases hm.current hi with hi | rfl
    · exact (h.current i hi).moved hm h.connects
    · have hnone : st.At c st.served.length := by simp [Stream.At]
      exact hnone.moved hm h.connects
  · refine hm.served (Q := fun _ o => o.peer = c → o.dest = dest ∧
      Untouched code o.session) ?_ ?_ ?_ h.served
    · exact fun _ o hq hp => ⟨(hq hp).1, (hq hp).2.close⟩
    · exact fun _ o e session sent hs hown hq hp => ⟨(hq hp).1, (hq hp).2.step himpl hv hs hown⟩
    · exact fun k hk _ => ⟨(h.connects k hk).1, .new id⟩

theorem Stream.MadeBy.acks {ev : StreamEvent} (hm : Stream.Moved rs sc id st ev st' out)
    (h : st.MadeBy code c dest) {rAddr peer : Nat} {id' : UInt16} {d : Bytes}
    (hr : .ack rAddr id' peer d ∈ out) : peer = c ∧ d = dest := by
  cases hm with
  | sendAck k d' clientAddr hk =>
    obtain ⟨hd, haddr⟩ := h.connects _ (List.mem_of_getElem? hk)
    cases List.mem_singleton.mp hr
    exact ⟨haddr, hd⟩
  | act i e o session sent ho hown hs =>
    obtain ⟨a, -, ha⟩ := List.mem_map.mp hr
    cases ha
  | dialFail =>
    cases List.mem_singleton.mp hr
  | dialOk | register | cleanup => cases hr

/-- What is sent for one StreamID, is acknowledged with it. -/
theorem Server.ack_id {id' : UInt16} {rAddr peer : Nat} {d : Bytes}
    (hs : s.step rs sc e = some (s', out)) (hr : .ack rAddr id' peer d ∈ out) :
    (∃ ev, e = .demux id' ev) ∨ ∃ ev, e = .stream id' ev := by
  rcases Server.step_cases hs with ⟨_, a, err, rfl, -, -, rfl, rfl⟩ |
    ⟨_, a, p, rfl, -, -, rfl, rfl⟩ |
    ⟨id, ev, loop, st, rfl, hev, rfl⟩ | ⟨id, ev, st, rfl, hev, rfl⟩
  · cases hr
  · cases hr
  · have hh := Stream.demux_handled hev
    generalize s.loop = loop₀ at hh
    cases hh with
    | reack =>
      cases List.mem_singleton.mp hr
      exact Or.inl ⟨ev, rfl⟩
    | handle | finish | delete => cases hr
  · cases Stream.step_moved hev with
    | sendAck =>
      cases List.mem_singleton.mp hr
      exact Or.inr ⟨_, rfl⟩
    | act i e o session sent ho hown hs =>
      obtain ⟨a, -, ha⟩ := List.mem_map.mp hr
      cases ha
    | dialFail => cases List.mem_singleton.mp hr
    | dialOk | register | cleanup => cases hr

theorem Server.Serves.set_ne (h : s.Serves code c dest id) {id' : UInt16} (hid : id' ≠ id)
    {loop : DemuxLoop Nat} (hloop : loop = .read ∨ loop.id = some id' ∨ loop = s.loop)
    (st : Stream Nat) :
    (s.set id' loop st).Serves code c dest id := by
  have hst : (s.set id' loop st).stream id = s.stream id := by simp [Server.set, Ne.symm hid]
  refine ⟨hst ▸ h.stream, fun hl => ?_⟩
  rw [hst]
  rcases hloop with rfl | hl' | rfl
  · cases hl
  · exact absurd (Option.some.inj (hl'.symm.trans hl)) hid
  · exact h.loop hl

theorem Server.Serves.set_self {loop : DemuxLoop Nat} (hst : st.MadeBy code c dest)
    (hloop : loop.id = some id → ∃ p rAddr i, loop = .found p rAddr i ∧ p.type = .connect ∧
      st.At c i) :
    (s.set id loop st).Serves code c dest id := by
  refine ⟨by simpa [Server.set] using hst, fun hl => ?_⟩
  simpa [Server.set] using hloop hl

/-- **Step lemma for the server.** When only CONNECTs of connection `c` arrive for its
StreamID, the server keeps working for `c`, and its CONN_ACKs say so. -/
theorem Server.Serves.step (himpl : Implements rs code) (hv : ∀ id, (sc.session id).Valid n)
    (h : s.Serves code c dest id) (hs : s.step rs sc e = some (s', out))
    (hrecv : ∀ rAddr a p, e = .recv rAddr a → readUDP a = .ok p → p.streamID = id →
      rAddr = c ∧ p.type = .connect ∧ p.addr = dest) :
    s'.Serves code c dest id ∧ ∀ rAddr peer d, .ack rAddr id peer d ∈ out → peer = c ∧
    d = dest := by
  rcases Server.step_cases hs with ⟨rAddr, a, err, rfl, -, -, rfl, rfl⟩ |
    ⟨rAddr, a, p, rfl, hread, -, rfl, rfl⟩ | ⟨id', ev, loop, st, rfl, hev, rfl⟩ | ⟨id', ev, st, rfl,
      hev, rfl⟩
  · exact ⟨h, by simp⟩
  · refine ⟨?_, by simp⟩
    by_cases hid : p.streamID = id
    · obtain ⟨rfl, ht, haddr⟩ := hrecv rAddr a p rfl hread hid
      subst hid
      unfold Stream.lookup
      split
      · rename_i i hi
        exact .set_self h.stream fun _ => ⟨p, rAddr, i, rfl, ht, h.stream.current i hi⟩
      · simp only [ht, ↓reduceIte]
        refine .set_self ⟨fun k hk => ?_, h.stream.current, h.stream.served⟩ (by
          simp [DemuxLoop.id])
        rcases List.mem_append.mp hk with hk | hk
        · exact h.stream.connects k hk
        · rw [List.mem_singleton.mp hk]
          exact ⟨haddr, rfl⟩
    · rcases Stream.lookup_loop (s.stream p.streamID) rAddr p with hl | hl
      · exact h.set_ne hid (Or.inl hl) _
      · exact h.set_ne hid (Or.inr (Or.inl hl)) _
  · have hh := Stream.demux_handled hev
    obtain ⟨hid', hloop'⟩ := hh.loop
    by_cases hid : id' = id
    · subst hid
      obtain ⟨p, rAddr, i, hloop, ht, hi⟩ := h.loop hid'
      rw [hloop] at hh
      cases hh with
      | reack _ _ _ o ho hp ht' =>
        refine ⟨.set_self h.stream (by simp [DemuxLoop.id]), fun rAddr peer d hr => ?_⟩
        cases List.mem_singleton.mp hr
        exact ⟨hi o ho, (h.stream.served i o ho (hi o ho)).1⟩
      | handle _ _ _ o _ ho hp ht' hl => exact absurd ht ht'
    · refine ⟨h.set_ne hid (hloop'.imp_right Or.inl) st, fun rAddr peer d hr => ?_⟩
      rcases Server.ack_id hs hr with ⟨ev', he⟩ | ⟨ev', he⟩
      · cases he
        exact absurd rfl hid
      · cases he
  · have hm := Stream.step_moved hev
    by_cases hid : id' = id
    · subst hid
      refine ⟨.set_self (h.stream.moved himpl hv hm) fun hl => ?_,
        fun rAddr peer d hr => h.stream.acks hm hr⟩
      obtain ⟨p, rAddr, i, hloop, ht, hi⟩ := h.loop hl
      exact ⟨p, rAddr, i, hloop, ht, hi.moved hm h.stream.connects⟩
    · refine ⟨h.set_ne hid (Or.inr (Or.inr rfl)) st, fun rAddr peer d hr => ?_⟩
      rcases Server.ack_id hs hr with ⟨ev', he⟩ | ⟨ev', he⟩
      · cases he
      · cases he
        exact absurd rfl hid

end Serves

/-! ## The invariant of a pair -/

/-- The handshake of connection `c` is the last use of its StreamID, and all that both ends
and the network do with the StreamID belongs to it. -/
structure Fresh {k n : Nat} (code : Code UInt8 k n) (s : Pair) (c : Nat) (dest : Bytes)
    (id : UInt16) : Prop where
  latest : ∀ i r, s.client.requests[i]? = some r → r.2 = id → i ≤ c
  serves : s.server.Serves code c dest id
  acks : ∀ m ∈ s.toClient, ∀ p, readUDP m.2 = .ok p → p.type = .connAck → p.streamID = id →
    m.1 = some ⟨c, dest⟩
  /-- before it is established, the connection sends nothing but its CONNECT -/
  sent : ∀ m ∈ s.toServer, m.1 = c → ∀ p, readUDP m.2 = .ok p → p.type = .connect

/-- A datagram to the server carries what its connection asked for. -/
def SentBy (requests : List (Bytes × UInt16)) (m : Nat × Bytes) : Prop :=
  ∃ r, requests[m.1]? = some r ∧
    ∀ p, readUDP m.2 = .ok p → p.streamID = r.2 ∧ (p.type = .connect → p.addr = r.1)

structure PairInv (rs : ReedSolomon) (cc sc : PepConfig) {n : Nat} (code : Code UInt8 sc.fecK n)
    (s : Pair) :
    Prop where
  pending : s.client.Pending
  client : ∀ conn ∈ s.client.conns, conn.Sound rs cc
  server : ∀ id, (s.server.stream id).Sound rs sc s.client.requests.length id
  toServer : ∀ m ∈ s.toServer, SentBy s.client.requests m
  fresh : ∀ (c : Nat) (conn : Conn (Option Answer)), s.client.conns[c]? = some conn →
    conn.stage.handshaking = true → Fresh code s c conn.dest conn.streamID
  answered : ∀ (c : Nat) (conn : Conn (Option Answer)), s.client.conns[c]? = some conn →
    ∀ source, conn.stage.answeredBy = some source → source = some ⟨c, conn.dest⟩

section PairInv

variable {rs : ReedSolomon} {cc sc : PepConfig} {n : Nat} {code : Code UInt8 sc.fecK n}
  {s s' : Pair}

theorem pairInv_init : PairInv rs cc sc code {} where
  pending id c h := by simp at h
  client conn h := by simp at h
  server id := ⟨fun i o h => by simp at h, fun k h => by simp at h⟩
  toServer m h := by simp at h
  fresh c conn h := by simp at h
  answered c conn h := by simp at h

theorem PairInv.lose (h : PairInv rs cc sc code s) (hl : s.Loses s') :
    PairInv rs cc sc code s' where
  pending := hl.client ▸ h.pending
  client := hl.client ▸ h.client
  server := by rw [hl.client, hl.server]; exact h.server
  toServer m hm := by rw [hl.client]; exact h.toServer m (hl.toServer m hm)
  fresh c conn hconn hh := by
    have hf := h.fresh c conn (hl.client ▸ hconn) hh
    exact ⟨hl.client ▸ hf.latest, hl.server ▸ hf.serves, fun m hm => hf.acks m (hl.toClient m hm),
      fun m hm => hf.sent m (hl.toServer m hm)⟩
  answered := hl.client ▸ h.answered

theorem Latest.le {c i : Nat} {id : UInt16} {r : Bytes × UInt16} (h : Latest s c id)
    (hr : s.client.requests[i]? = some r) (hid : r.2 = id) : i ≤ c := by
  by_contra hlt
  refine h r (List.mem_iff_getElem?.mpr ⟨i - (c + 1), ?_⟩) hid
  rw [List.getElem?_drop, show c + 1 + (i - (c + 1)) = i by omega, hr]

theorem PairInv.serverStep (himpl : Implements rs code) (hv : ∀ id, (sc.session id).Valid n)
    {e : ServerEvent Nat} (h : PairInv rs cc sc code s) (hs : s.serverStep rs sc e = some s')
    (hrecv : ∀ rAddr a, e = .recv rAddr a → (rAddr, a) ∈ s.toServer ∧
      ∀ p, readUDP a = .ok p → Latest s rAddr p.streamID) : PairInv rs cc sc code s' := by
  have hsc : sc.Works rs := ⟨n, code, himpl, hv⟩
  simp only [Pair.serverStep, Option.map_eq_some_iff, Prod.exists] at hs
  obtain ⟨server, out, hstep, rfl⟩ := hs
  refine ⟨h.pending, h.client, ?_, h.toServer, ?_, h.answered⟩
  · refine Stream.Sound.step hsc hstep (fun rAddr a he => ?_) h.server
    obtain ⟨r, hr, -⟩ := h.toServer _ (hrecv rAddr a he).1
    exact (List.getElem?_eq_some_iff.mp hr).1
  · intro c conn hconn hh
    have hf := h.fresh c conn hconn hh
    obtain ⟨hserves, hacks⟩ := hf.serves.step himpl hv hstep fun rAddr a p he hread hid => by
      obtain ⟨hmem, hlatest⟩ := hrecv rAddr a he
      obtain ⟨r, hr, hp⟩ := h.toServer _ hmem
      obtain ⟨hpid, haddr⟩ := hp p hread
      have hle := hf.latest rAddr r hr (hpid.symm.trans hid)
      have hge := (hlatest p hread).le (Client.getElem?_requests hconn) hid.symm
      obtain rfl : rAddr = c := Nat.le_antisymm hle hge
      have ht := hf.sent _ hmem rfl p hread
      obtain rfl := Option.some.inj (hr.symm.trans (Client.getElem?_requests hconn))
      exact ⟨rfl, ht, haddr ht⟩
    refine ⟨hf.latest, hserves, ?_, hf.sent⟩
    intro m hm p hread ht hid
    rcases List.mem_append.mp hm with hm | hm
    · exact hf.acks m hm p hread ht hid
    · obtain ⟨r, hr, hmr⟩ := List.mem_flatMap.mp hm
      obtain ⟨rAddr, peer, dest, rfl, hm⟩ := Reply.read_ack
        (fun rAddr a he p hread => Stream.Sound.replies hsc hstep h.server (he ▸ hr) hread) hmr
        hread ht
      obtain ⟨rfl, rfl⟩ := hacks rAddr peer dest (hid ▸ hr)
      exact hm

/-- A connection that has just been given an unused StreamID. -/
theorem PairInv.fresh_of_unused (h : PairInv rs cc sc code s) {id : UInt16} (hu : Unused s id)
    (dest : Bytes) {client : Client (Option Answer)}
    (hlen : client.requests.length = s.client.requests.length + 1) {sent : List (Nat × Bytes)}
    (hsent : ∀ m ∈ sent, SentBy s.client.requests m) :
    Fresh code { s with client, toServer := s.toServer ++ sent } s.client.requests.length dest
    id := by
  have hnone : ∀ {m}, SentBy s.client.requests m → m.1 ≠ s.client.requests.length := by
    rintro m ⟨r, hr, -⟩ heq
    exact absurd (List.getElem?_eq_some_iff.mp hr).1 (by omega)
  refine ⟨fun i r hr _ => ?_, ⟨⟨?_, ?_, ?_⟩, fun hl => absurd hl hu.loop⟩, ?_, ?_⟩
  · have hlt : i < client.requests.length := (List.getElem?_eq_some_iff.mp hr).1
    omega
  · intro k hk
    simp only [hu.connects] at hk
    cases hk
  · intro i hi
    simp only [hu.current] at hi
    cases hi
  · intro i o ho hp
    exact absurd ((h.server id).served i o ho).2 (by omega)
  · intro m hm p hread ht hid
    exact absurd hid (hu.acks m hm p (by rw [hread]; rfl) ht)
  · intro m hm hc
    rcases List.mem_append.mp hm with hm | hm
    · exact absurd hc (hnone (h.toServer m hm))
    · exact absurd hc (hnone (hsent m hm))

theorem PairInv.clientStep (hcc : cc.Works rs) {e : ClientEvent (Option Answer)}
    (h : PairInv rs cc sc code s) (hs : s.clientStep rs cc e = some s')
    (haccept : ∀ dest, e = .accept dest → ∀ lastID id,
      getNextStreamID s.client.sessions s.client.lastID = some (lastID, some id) → Unused s id)
    (hrecv : ∀ source a, e = .recv source a → (source, a) ∈ s.toClient) :
    PairInv rs cc sc code s' := by
  simp only [Pair.clientStep, Option.map_eq_some_iff, Prod.exists] at hs
  obtain ⟨client, out, hstep, rfl⟩ := hs
  have hm := Client.step_moved hstep
  have hsub : s.client.requests <+: client.requests := by
    rcases hm.requests with heq | ⟨dest, lastID, id, -, -, hconns⟩
    · rw [heq]
    · rw [Client.requests, Client.requests, hconns, List.map_append]
      exact List.prefix_append _ _
  have hsent : ∀ m ∈ out, SentBy s.client.requests m := by
    intro m hmem
    obtain ⟨conn, hconn, hmar | ⟨session, e, session', sent, hstage, hstep, ha⟩⟩ := hm.sent hmem
    · refine ⟨_, Client.getElem?_requests hconn, fun p hread => ?_⟩
      cases (readUDP_addr (Or.inl rfl) hmar).symm.trans hread
      exact ⟨rfl, fun _ => rfl⟩
    · refine ⟨_, Client.getElem?_requests hconn, fun p hread => ?_⟩
      have hsound := h.client conn (List.mem_of_getElem? hconn) session hstage
      obtain ⟨q, hq, hid, hne, -⟩ := Session.step_read hcc hsound hstep ha
      cases hq.symm.trans hread
      exact ⟨hid, fun ht => absurd ht hne⟩
  refine ⟨h.pending.moved hm, hm.sound hcc h.client, ?_, ?_, ?_, ?_⟩
  · intro id
    have hle := hsub.length_le
    refine ⟨fun i o ho => ?_, fun k hk => Nat.lt_of_lt_of_le ((h.server id).connects k hk) hle⟩
    obtain ⟨htx, hlt⟩ := (h.server id).served i o ho
    exact ⟨htx, Nat.lt_of_lt_of_le hlt hle⟩
  · intro m hmem
    obtain ⟨r, hr, hp⟩ : SentBy s.client.requests m := by
      rcases List.mem_append.mp hmem with hmem | hmem
      · exact h.toServer m hmem
      · exact hsent m hmem
    obtain ⟨new, hnew⟩ := hsub
    refine ⟨r, ?_, hp⟩
    rw [← hnew, List.getElem?_append_left (List.getElem?_eq_some_iff.mp hr).1, hr]
  · intro c conn' hconn' hh
    rcases hm.continues hconn' hh with ⟨conn, hconn, hdest, hid, hhs, -⟩ | ⟨rfl, hconns, hstage⟩
    · have hf := h.fresh c conn hconn hhs
      rw [hdest, hid] at hf
      refine ⟨?_, hf.serves, hf.acks, ?_⟩
      · intro i r hr hrid
        rcases hm.requests with heq | ⟨dest, lastID, id, rfl, hsearch, hconns⟩
        · exact hf.latest i r (heq ▸ hr) hrid
        · have hreq : client.requests = s.client.requests ++ [(dest, id)] := by
            simp [Client.requests, hconns]
          simp only [hreq] at hr
          rcases Nat.lt_or_ge i s.client.requests.length with hlt | hge
          · rw [List.getElem?_append_left hlt] at hr
            exact hf.latest i r hr hrid
          · -- the new connection would have the StreamID of a handshake that is running
            rw [List.getElem?_append_right hge] at hr
            cases List.mem_singleton.mp (List.mem_of_getElem? hr)
            have hover :=
              (haccept dest rfl lastID id hsearch).client conn (List.mem_of_getElem? hconn)
              (hid.trans hrid.symm)
            rw [hhs] at hover
            cases hover
      · intro m hmem hmc p hread
        rcases List.mem_append.mp hmem with hmem | hmem
        · exact hf.sent m hmem hmc p hread
        · -- a session would mean that the handshake is over
          obtain ⟨conn₁, hconn₁, hmar | ⟨session, e, session', sent, hstage, -, -⟩⟩ := hm.sent hmem
          · cases (readUDP_addr (Or.inl rfl) hmar).symm.trans hread
            rfl
          · rw [hmc, hconn] at hconn₁
            cases hconn₁
            simp [hstage, ConnStage.handshaking] at hhs
    · rcases hm.requests with heq | ⟨dest, lastID, id, rfl, hsearch, hconns'⟩
      · have hlen := congrArg List.length heq
        simp [Client.requests, hconns] at hlen
      · have hlen : client.requests.length = s.client.requests.length + 1 := by
          simp [Client.requests, hconns]
        have hc : s.client.conns.length = s.client.requests.length := by simp [Client.requests]
        have hlast : conn' = { dest, streamID := id } := by simpa [hconns] using hconns'
        rw [hlast, hc]
        exact h.fresh_of_unused (haccept dest rfl lastID id hsearch) dest hlen hsent
  · intro c conn' hconn' source hsource
    rcases hm.continues hconn' (ConnStage.handshaking_of_answeredBy hsource) with
      ⟨conn, hconn, hdest, -, hhs, hfrom⟩ | ⟨-, -, hstage⟩
    · rw [← hdest]
      rcases hfrom source hsource with hold | ⟨a, p, rfl, hread, ht, hlook⟩
      · exact h.answered c conn hconn source hold
      · obtain ⟨conn₁, hconn₁, hid, -⟩ := h.pending _ _ hlook
        cases hconn.symm.trans hconn₁
        exact (h.fresh c conn hconn hhs).acks _ (hrecv source a rfl) p hread ht hid.symm
    · rw [hstage] at hsource
      cases hsource

theorem PairInv.step (himpl : Implements rs code) (hv : ∀ id, (sc.session id).Valid n)
    (hcc : cc.Works rs) {e : PairEvent} (h : PairInv rs cc sc code s) (hok : Orderly s e)
    (hs : s.step rs cc sc e = some s') :
    PairInv rs cc sc code s' := by
  cases e with
  | client e =>
    have haccept : ∀ dest, e = .accept dest → ∀ lastID id,
        getNextStreamID s.client.sessions s.client.lastID = some (lastID, some id) →
        Unused s id := by
      rintro dest rfl lastID id hsearch
      exact hok id (by simp [Client.nextStreamID, hsearch])
    simp only [Pair.step] at hs
    split at hs
    · cases hs
    · rename_i hne
      exact h.clientStep hcc hs haccept fun source a he => absurd he (hne source a)
  | server e =>
    simp only [Pair.step] at hs
    split at hs
    · cases hs
    · rename_i hne
      exact h.serverStep himpl hv hs fun rAddr a he => absurd he (hne rAddr a)
  | deliverServer i again =>
    simp only [Pair.step] at hs
    split at hs
    · rename_i m hm
      obtain ⟨s₁, hs₁, hl⟩ : ∃ s₁, s.serverStep rs sc (.recv m.1 m.2) = some s₁ ∧ s₁.Loses s' := by
        split at hs
        · exact (Pair.Loses.refl s).serverStep hs
        · exact (Pair.Loses.eraseServer s i).serverStep hs
      refine PairInv.lose (h.serverStep himpl hv hs₁ ?_) hl
      rintro _ _ ⟨⟩
      exact ⟨List.mem_of_getElem? hm, fun p hread => hok m hm p (by rw [hread]; rfl)⟩
    · cases hs
  | deliverClient i again =>
    simp only [Pair.step] at hs
    split at hs
    · rename_i m hm
      obtain ⟨s₁, hs₁, hl⟩ : ∃ s₁, s.clientStep rs cc (.recv m.1 m.2) = some s₁ ∧ s₁.Loses s' := by
        split at hs
        · exact (Pair.Loses.refl s).clientStep hs
        · exact (Pair.Loses.eraseClient s i).clientStep hs
      refine PairInv.lose (h.clientStep hcc hs₁ (by simp) ?_) hl
      rintro _ _ ⟨⟩
      exact List.mem_of_getElem? hm
    · cases hs
  | dropServer i =>
    simp only [Pair.step, Option.ite_none_right_eq_some, Option.some.injEq] at hs
    obtain ⟨-, rfl⟩ := hs
    exact h.lose (.eraseServer s i)
  | dropClient i =>
    simp only [Pair.step, Option.ite_none_right_eq_some, Option.some.injEq] at hs
    obtain ⟨-, rfl⟩ := hs
    exact h.lose (.eraseClient s i)

end PairInv

/-! ## Agreement -/

/-- **Handshake agreement.** Suppose that a StreamID is given out only when nothing is left
of its earlier connections, and that no packet of these arrives at the server later. Then
the CONN_ACK that ends a handshake speaks for a session dialled to its destination for its
own CONNECT, and no session made for it has written anything. -/
theorem handshake_agreement {rs : ReedSolomon} {cc sc : PepConfig} (hcc : cc.Works rs)
    (hsc : sc.Works rs) {s : Pair} (hr : Reach (pair rs cc sc) Orderly s) {c : Nat}
    {conn : Conn (Option Answer)} (hc : s.client.conns[c]? = some conn) {source : Option Answer}
    (hdone : conn.stage = .succeeded source) :
    source = some ⟨c, conn.dest⟩ ∧
      ∀ o ∈ (s.server.stream conn.streamID).served, o.peer = c →
        o.dest = conn.dest ∧ o.session.rx.nextWriteGrp = 0 ∧ o.session.rx.written = 0 := by
  obtain ⟨n, code, himpl, hv⟩ := hsc
  have hinv : PairInv rs cc sc code s :=
    hr.invariant pairInv_init fun _ _ _ h hok hs => h.step himpl hv hcc hok hs
  refine ⟨hinv.answered c conn hc source (by rw [hdone]; rfl), fun o ho hp => ?_⟩
  obtain ⟨i, hi⟩ := List.mem_iff_getElem?.mp ho
  have hf := hinv.fresh c conn hc (by rw [hdone]; rfl)
  obtain ⟨hdest, huntouched⟩ := hf.serves.stream.served i o hi hp
  exact ⟨hdest, huntouched.written⟩

/-- A client and a server with blocks of two data packets and one parity packet. -/
abbrev smallPair : Machine Pair PairEvent := pair reedSolomonTwoOne smallPep smallPep

theorem smallPep_works : smallPep.Works reedSolomonTwoOne :=
  ⟨3, twoOne, implements_twoOne, fun _ => ⟨(by decide : 1 ≤ 2), (by decide : 2 + 1 ≤ 3),
    (by decide : 2 + 1 ≤ 32), (by decide : (if 100 ≤ 36 then 512 else 100 - 36) + 8 ≤ 2048)⟩⟩

/-- Connection 0 asks for target 65, and its CONN_ACK is taken. -/
def firstHandshake : List PairEvent :=
  [.client (.accept [65]), .client (.conn 0 .openChannel), .client (.conn 0 .send),
    .deliverServer 0 false, .server (.stream 1 (.dialOk 0)), .server (.stream 1 (.sendAck 0)),
    .server (.stream 1 (.register 0)), .deliverClient 0 false, .client (.conn 0 .take)]

theorem handshake_agreement_small :
    ∃ s conn, Reach smallPair Orderly s ∧ s.client.conns[0]? = some conn ∧
      conn.stage = .succeeded (some ⟨0, conn.dest⟩) ∧
      ∃ o ∈ (s.server.stream conn.streamID).served, o.peer = 0 ∧ o.dest = conn.dest ∧
        o.session.rx.nextWriteGrp = 0 ∧ o.session.rx.written = 0 := by
  obtain ⟨s, hr, hstage, hserved⟩ :
      ∃ s, Reach smallPair Orderly s ∧
        s.client.conns.map (fun conn => match conn.stage with
          | .succeeded _ => some conn.streamID
          | _ => none) = [some 1] ∧
        (s.server.stream 1).served.map (fun o => o.peer) = [0] :=
    Reach.exists_of_runOk _ firstHandshake (by decide +kernel)
  obtain ⟨conn, hconns, hconn⟩ := List.map_eq_singleton_iff.mp hstage
  obtain ⟨o, ho, hpeer⟩ := List.map_eq_singleton_iff.mp hserved
  have hc : s.client.conns[0]? = some conn := by rw [hconns]; rfl
  split at hconn
  · rename_i source hdone
    have hid : conn.streamID = 1 := Option.some.inj hconn
    obtain ⟨rfl, hall⟩ := handshake_agreement smallPep_works smallPep_works hr hc hdone
    have ho' : o ∈ (s.server.stream conn.streamID).served := by
      rw [hid, ho]
      exact List.mem_singleton_self o
    exact ⟨s, conn, hr, hc, hdone, o, ho', hpeer, hall o ho' hpeer⟩
  · cases hconn

/-- The steps of connection 0 and its session, the client being the left end. -/
def asPair : LinkEvent → List PairEvent
  | .act .left e => [.client (.conn 0 (.act e))]
  | .act .right e => [.server (.stream 1 (.act 0 e))]
  | .deliver .right i again => [.deliverServer i again, .server (.demux 1 .dispatch)]
  | .deliver .left i again => [.deliverClient i again, .client (.demux .dispatch)]
  | .drop .left i => [.dropClient i]
  | .drop .right i => [.dropServer i]

/-- One block crosses the link and is acknowledged. -/
def oneBlock : List LinkEvent :=
  bothStart ++ readAndFlush [7] ++ sendBlock ++ List.replicate 3 (.deliver .right 0 false) ++
    writeBlock ++ [.deliver .left 0 false]

/-- Connection 0 is established and used; then the client finds it idle. -/
def usedOnce : List PairEvent :=
  firstHandshake ++ [.client (.conn 0 .register)] ++ oneBlock.flatMap asPair ++
    [.client (.cleanup 1)]

/-- The client has gone through the StreamIDs up to `k` and holds none; the server has kept
the session of connection 0. -/
structure Spent (k : Nat) (s : Pair) : Prop where
  lastID : s.client.lastID = UInt16.ofNat k
  sessions : isEmpty s.client.sessions = true
  pending : isEmpty s.client.pendingConnects = true
  conns : s.client.conns.length = k
  clientLoop : s.client.loop = .read
  serverLoop : s.server.loop = .read
  toServer : s.toServer = []
  toClient : s.toClient = []
  current : (s.server.stream 1).current = some 0
  served : (s.server.stream 1).served.map (fun o => (o.peer, o.dest, o.session.rx.nextWriteGrp)) =
    [(0, [65], 1)]

theorem usedOnce_spent :
    ∃ s, Reach smallPair (fun _ _ => True) s ∧ Spent 1 s := by
  obtain ⟨s, hr, ⟨h₁, h₂, h₃, h₄, h₅⟩, h₆, h₇, h₈, h₉, h₁₀⟩ :
      ∃ s, Reach smallPair (fun _ _ => True) s ∧
        (s.client.lastID = UInt16.ofNat 1 ∧ isEmpty s.client.sessions = true ∧
          isEmpty s.client.pendingConnects = true ∧ s.client.conns.length = 1 ∧
          s.client.loop = .read) ∧
        s.server.loop = .read ∧ s.toServer = [] ∧ s.toClient = [] ∧
        (s.server.stream 1).current = some 0 ∧
        (s.server.stream 1).served.map (fun o => (o.peer, o.dest, o.session.rx.nextWriteGrp)) =
        [(0, [65], 1)] :=
    Reach.exists_of_runOk _ usedOnce (by decide +kernel)
  exact ⟨s, hr, h₁, h₂, h₃, h₄, h₅, h₆, h₇, h₈, h₉, h₁₀⟩

section Reuse

variable {s : Pair} {k : Nat} {id : UInt16} {buf : Bytes} {pending : Table UInt16 Nat}

/-- One more connection, to target 66. -/
def withConn (s : Pair) (id : UInt16) (stage : ConnStage (Option Answer))
    (pending : Table UInt16 Nat) : Pair :=
  { s with client := { s.client with
      lastID := id, conns := s.client.conns ++ [⟨[66], id, stage⟩], pendingConnects := pending } }

theorem step_accept (hfree : isEmpty s.client.sessions = true)
    (hid : s.client.lastID % 4095 + 1 = id) :
    smallPair.step s
    (.client (.accept [66])) = some (withConn s id .allocated s.client.pendingConnects) := by
  have hsearch := getNextStreamID_of_free (lookup_of_isEmpty hfree (s.client.lastID % 4095 + 1))
  rw [hid] at hsearch
  simp [pair, Pair.step, Pair.clientStep, Client.step, hsearch, withConn]

theorem step_openChannel (s : Pair) (id : UInt16) (pending : Table UInt16 Nat) :
    smallPair.step (withConn s id .allocated pending)
      (.client (.conn s.client.conns.length .openChannel)) =
      some (withConn s id (.waiting none) (pending.insert id s.client.conns.length)) := by
  simp [pair, Pair.step, Pair.clientStep, Client.step, Client.connStep, Client.modifyStage_concat,
    withConn]

theorem step_send (hm : marshal { type := .connect, streamID := id, addr := [66] } = .ok buf) :
    smallPair.step (withConn s id (.waiting none) pending)
      (.client (.conn s.client.conns.length .send)) =
      some (withConn { s with toServer := s.toServer ++ [(s.client.conns.length, buf)] } id
        (.waiting none) pending) := by
  simp [pair, Pair.step, Pair.clientStep, Client.step, Client.connStep, Conn.connectPacket, hm,
    withConn]

theorem step_timeout (hm : marshal { type := .connect, streamID := id, addr := [66] } = .ok buf) :
    smallPair.step (withConn s id (.waiting none) pending)
      (.client (.conn s.client.conns.length .timeout)) =
      some (withConn s id .failed (pending.erase id)) := by
  simp [pair, Pair.step, Pair.clientStep, Client.step, Client.connStep, Conn.connectPacket, hm,
    Client.modifyStage_concat, withConn]

theorem step_take (hm : marshal { type := .connect, streamID := id, addr := [66] } = .ok buf)
    (source : Option Answer) :
    smallPair.step (withConn s id (.waiting (some (.ok source))) pending)
      (.client (.conn s.client.conns.length .take)) =
        some (withConn s id (.succeeded source) pending) := by
  simp [pair, Pair.step, Pair.clientStep, Client.step, Client.connStep, Conn.connectPacket, hm,
    Client.modifyStage_concat, withConn]

/-- A connection to target 66 is intercepted and sends its CONNECT. -/
theorem Spent.connect (hr : Reach smallPair (fun _ _ => True) s) (h : Spent k s)
    (hid : s.client.lastID % 4095 + 1 = id)
    (hm : marshal { type := .connect, streamID := id, addr := [66] } = .ok buf) :
    Reach smallPair (fun _ _ => True)
      (withConn { s with toServer := [(s.client.conns.length, buf)] } id (.waiting none)
        (s.client.pendingConnects.insert id s.client.conns.length)) := by
  have hsend := @step_send s id buf (s.client.pendingConnects.insert id s.client.conns.length) hm
  rw [h.toServer] at hsend
  exact ((hr.step trivial (step_accept h.sessions hid)).step trivial (step_openChannel s id _)).step
    trivial hsend

/-- The StreamIDs below 4095 are handed out in order. -/
theorem ofNat_mod_add_one (hk : k < 4095) : UInt16.ofNat k % 4095 + 1 = UInt16.ofNat (k + 1) := by
  apply UInt16.toNat_inj.mp
  rw [UInt16.toNat_add, UInt16.toNat_mod, UInt16.toNat_ofNat', UInt16.toNat_ofNat',
    Nat.mod_eq_of_lt (by omega : k < 2 ^ 16), Nat.mod_eq_of_lt (by omega : k + 1 < 2 ^ 16)]
  show (k % 4095 + 1) % 65536 = k + 1
  omega

/-- The next connection is given up, since its CONNECT is lost. -/
theorem Spent.round (hr : Reach smallPair (fun _ _ => True) s) (hk : k < 4095) (h : Spent k s) :
    ∃ s', Reach smallPair (fun _ _ => True) s' ∧ Spent (k + 1) s' := by
  obtain ⟨id, hid⟩ : ∃ id, UInt16.ofNat (k + 1) = id := ⟨_, rfl⟩
  have hnext : s.client.lastID % 4095 + 1 = id := by
    rw [h.lastID, ofNat_mod_add_one hk, hid]
  have hle : ¬ id > 0x0FFF := by
    rw [gt_iff_lt, UInt16.lt_iff_toNat_lt, ← hid, UInt16.toNat_ofNat', Nat.mod_eq_of_lt (by omega)]
    exact Nat.not_lt.mpr hk
  obtain ⟨buf, hm⟩ : ∃ buf, marshal { type := .connect, streamID := id, addr := [66] } =
    .ok buf := by
    simp [marshal, hle]
  have hdrop :
      smallPair.step (withConn { s with toServer := [(s.client.conns.length, buf)] } id
        (.waiting none)
      (s.client.pendingConnects.insert id s.client.conns.length)) (.dropServer 0) =
      some (withConn { s with toServer := [] } id (.waiting none)
        (s.client.pendingConnects.insert id s.client.conns.length)) := by
    simp [pair, Pair.step, withConn]
  have hr' := ((h.connect hr hnext hm).step trivial hdrop).step trivial (step_timeout hm)
  refine ⟨_, hr', ⟨hid.symm, h.sessions, ?_, ?_, h.clientLoop, h.serverLoop, rfl, h.toClient,
    h.current, h.served⟩⟩
  · have hkeys : s.client.pendingConnects.keys = [] := by simpa [isEmpty] using h.pending
    simp [withConn, isEmpty, hkeys]
  · simp [withConn, h.conns]

theorem spent_rounds {n : Nat} (hn : n < 4095) :
    ∃ s, Reach smallPair (fun _ _ => True) s ∧ Spent (n + 1) s := by
  induction n with
  | zero => exact usedOnce_spent
  | succ n ih =>
    obtain ⟨s, hr, h⟩ := ih (by omega)
    exact h.round hr hn

end Reuse

/-- **A CONN_ACK of an old session.** After 4095 connections the client gives StreamID 1 to a
connection to target 66. The server still has the session of connection 0 and answers
from it, so the new connection continues an old stream to target 65. -/
theorem handshake_stale :
    ∃ s conn, Reach smallPair (fun _ _ => True) s ∧
      s.client.conns[4095]? = some conn ∧ conn.streamID = 1 ∧ conn.dest = [66] ∧
      conn.stage = .succeeded (some ⟨0, [65]⟩) ∧
      (s.server.stream 1).served.map (fun o => (o.peer, o.dest, o.session.rx.nextWriteGrp)) =
        [(0, [65], 1)] := by
  obtain ⟨s, hr, h⟩ := spent_rounds (n := 4094) (by decide)
  have hid : s.client.lastID % 4095 + 1 = 1 := by rw [h.lastID]; rfl
  have hm : marshal { type := .connect, streamID := 1, addr := [66] } =
    .ok (connectDatagram 1 66) := rfl
  have hread : readUDP (connectDatagram 1 66) =
      .ok { type := .connect, streamID := 1, addr := [66] } := rfl
  have hsent : sendPacketDirect { type := .connAck, streamID := 1 } = [[0x10, 1]] := rfl
  have hack : readUDP [0x10, 1] = .ok { type := .connAck, streamID := 1 } := rfl
  obtain ⟨o, ho, hold⟩ := List.map_eq_singleton_iff.mp h.served
  obtain ⟨hpeer, hdest, -⟩ : o.peer = 0 ∧ o.dest = [65] ∧ o.session.rx.nextWriteGrp = 1 := by
    simpa using hold
  let found : Server Nat := s.server.set 1
    (.found { type := .connect, streamID := 1, addr := [66] } s.client.conns.length 0)
    (s.server.stream 1)
  let served : Server Nat := s.server.set 1 .read (s.server.stream 1)
  let waiting := s.client.pendingConnects.insert 1 s.client.conns.length
  have harrive : smallPair.step
      (withConn { s with toServer := [(s.client.conns.length, connectDatagram 1 66)] } 1
        (.waiting none) waiting)
      (.deliverServer 0 false) =
      some (withConn { s with server := found, toServer := [] } 1 (.waiting none) waiting) := by
    simp [pair, Pair.step, withConn, Pair.serverStep, Server.step, h.serverLoop, hread,
      Stream.lookup, h.current, found]
  have hanswer : smallPair.step
        (withConn { s with server := found, toServer := [] } 1 (.waiting none) waiting)
      (.server (.demux 1 .dispatch)) =
      some (withConn
        { s with server := served, toServer := [], toClient := [(some ⟨0, [65]⟩, [0x10, 1])] } 1
        (.waiting none) waiting) := by
    simp [pair, Pair.step, withConn, Pair.serverStep, Server.step, Server.set, Stream.demux, ho,
      hpeer, hdest, Reply.message, Reply.datagram, Reply.answer, hsent, h.toClient, found, served]
  have hreply : smallPair.step
      (withConn
        { s with server := served, toServer := [], toClient := [(some ⟨0, [65]⟩, [0x10, 1])] } 1
        (.waiting none) waiting) (.deliverClient 0 false) =
      some (withConn { s with server := served, toServer := [], toClient := [] } 1
        (.waiting (some (.ok (some ⟨0, [65]⟩)))) (waiting.erase 1)) := by
    simp [pair, Pair.step, withConn, Pair.clientStep, Client.step, h.clientLoop, hack,
      Client.lookup, Client.modifyStage_concat, ConnStage.answer, waiting]
  have hacked :=
    (((h.connect hr hid hm).step trivial harrive).step trivial hanswer).step trivial hreply
  refine ⟨_, ⟨[66], 1, .succeeded (some ⟨0, [65]⟩)⟩, hacked.step trivial (step_take hm _), ?_, rfl,
    rfl, rfl, ?_⟩
  · have hlen : s.client.conns.length = 4095 := h.conns
    show (s.client.conns ++ [_])[4095]? = _
    rw [← hlen, List.getElem?_concat_length]
  · simpa [withConn, served, Server.set] using h.served

end TcpPep
