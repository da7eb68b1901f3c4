import TcpPep.Proxy.Handshake

/-!
The streams of a client and a server.

A server session is fed by whatever arrives under its StreamID, and a StreamID
is used by one connection after another. This module follows the bytes of every
connection through the tables of both ends.

* `Session.Follows`: a receiving half against the history of the peer's session;
* `Server.Carries`: every session of the server follows the connection it was made for;
* `Server.Carries.step`: no step of the server takes a session away from its connection;
* `relay_upload`: what is written to a target was read, in this order, from the
  connection that asked for it.
-/

namespace TcpPep

open Protocol Fec ErasureCode Events FiniteMap

/-! ## A session against the history of its peer -/

/-- What a PEP with parameters `tc` sends, one with parameters `rc` can decode. -/
structure Peers (rs : ReedSolomon) (tc rc : PepConfig) {n : Nat} (code : Code UInt8 tc.fecK n) :
    Prop where
  impl : Implements rs code
  fecK : rc.fecK = tc.fecK
  fecM : rc.fecM = tc.fecM
  tx : ∀ id, (tc.session id).Valid n
  rx : ∀ id, (rc.session id).Valid n

theorem Peers.of_works {rs : ReedSolomon} {tc rc : PepConfig} (htc : tc.Works rs)
    (hrc : rc.Works rs) (hk : rc.fecK = tc.fecK) (hm : rc.fecM = tc.fecM) :
    ∃ n, ∃ code : Code UInt8 tc.fecK n, Peers rs tc rc code := by
  obtain ⟨n, code, himpl, hv⟩ := htc
  obtain ⟨n', -, -, hv'⟩ := hrc
  refine ⟨n, code, himpl, hk, hm, hv, fun id => ?_⟩
  have hone := (hv id).one_le
  have hrows := (hv id).le_rows
  have hidx := (hv id).le_idx
  simp only [PepConfig.session] at hone hrows hidx
  refine ⟨?_, ?_, ?_, (hv' id).fits⟩
  · show 1 ≤ rc.fecK
    omega
  · show rc.fecK + rc.fecM ≤ n
    omega
  · show rc.fecK + rc.fecM ≤ 32
    omega

/-- The link of one StreamID, from the sending PEP on the left to the receiving one. -/
def PepConfig.linkTo (tc rc : PepConfig) (id : UInt16) : LinkConfig where
  streamID := id
  fecK := tc.fecK
  fecM := tc.fecM
  linkMTU
    | .left => tc.mtu
    | .right => rc.mtu
  bandwidth
    | .left => tc.bandwidth
    | .right => rc.bandwidth

/-- The receiving half of a session stands in the history `sent` of its peer. -/
structure Session.Follows {k n : Nat} (code : Code UInt8 k n) (sent : List Block) (s : Session) :
    Prop where
  rx : RxInv code sent s.rx
  idle : s.launched = false → s.rx.writer = .idle

section Follows

variable {rs : ReedSolomon} {tc rc : PepConfig} {n : Nat} {code : Code UInt8 tc.fecK n}
  {id : UInt16} {sent : List Block} {s s' : Session}

theorem Peers.linkTo_right (hp : Peers rs tc rc code) (id : UInt16) :
    (tc.linkTo rc id).side .right = rc.session id := by
  simp [PepConfig.linkTo, LinkConfig.side, PepConfig.session, hp.fecK, hp.fecM]

theorem Peers.valid (hp : Peers rs tc rc code) (id : UInt16) (x : Side) :
    ((tc.linkTo rc id).side x).Valid n := by
  cases x with
  | left => exact hp.tx id
  | right =>
    rw [hp.linkTo_right]
    exact hp.rx id

namespace Session.Follows

theorem new {k : Nat} {code : Code UInt8 k n} (cfg : Config) :
    (newSession cfg).Follows code [] := by
  refine ⟨⟨rfl, Nat.zero_le _, ?_, rfl⟩, fun _ => rfl⟩
  intro g b hb
  simp [newSession] at hb

theorem extend {sent' : List Block} (h : s.Follows code sent) (hpre : sent <+: sent') :
    s.Follows code sent' :=
  ⟨h.rx.extend hpre, h.idle⟩

theorem close (h : s.Follows code sent) : s.close.Follows code sent := ⟨h.rx, h.idle⟩

theorem finishHandler (h : s.Follows code sent) : s.finishHandler.Follows code sent := by
  refine ⟨?_, ?_⟩
  · rw [Session.finishHandler_rx]
    exact h.rx
  · rw [Session.finishHandler_rx, Session.finishHandler_launched]
    exact h.idle

theorem step (hp : Peers rs tc rc code) (h : s.Follows code sent)
    (hblocks : ∀ blk ∈ sent, Flushed rs (tc.session id) blk) {e : SessionEvent} {out : List Bytes}
    (hs : s.step rs (rc.session id) e = some (s', out)) (hown : e.isOwn = true) :
    s'.Follows code sent := by
  have hs' : s.step rs ((tc.linkTo rc id).side .right) e = some (s', out) := by
    rw [hp.linkTo_right]
    exact hs
  obtain ⟨hrx, hidle⟩ :=
    @Session.step_rx rs (tc.linkTo rc id) n code .left .right sent s s' e out hp.impl
    (hp.valid id) hblocks hs' h.rx h.idle (by rintro p rfl; cases hown)
  exact ⟨hrx, hidle⟩

/-- A packet of the peer, when DATA packets belong to a block in reach of the writer. -/
theorem handle (hp : Peers rs tc rc code) (h : s.Follows code sent)
    (hblocks : ∀ blk ∈ sent, Flushed rs (tc.session id) blk) {p : Packet}
    (hdata : p.type = .data → ∃ b, FromBlock (tc.session id) sent b p ∧ InTurn s.rx b) :
    (s.handle rs (rc.session id) p).Follows code sent := by
  by_cases ht : p.type = .data
  · obtain ⟨b, hb, hlo, hhi⟩ := hdata ht
    have hrx : (s.handle rs (rc.session id) p).rx = s.rx.handleDataPacket rs (rc.session id) p := by
      simp [Session.handle, ht]
    refine ⟨?_, fun hl => ?_⟩
    · have hnext :=
        @handleDataPacket_rxInv rs (tc.linkTo rc id) n code .left .right sent s.rx b p hp.impl
        (hp.valid id) hblocks h.rx hb hlo hhi
      rw [hp.linkTo_right] at hnext
      rw [hrx]
      exact hnext
    · rw [Session.handle_launched] at hl
      rw [hrx, (s.rx.handleDataPacket_intake rs (rc.session id) p).writer]
      exact h.idle hl
  · refine ⟨?_, ?_⟩
    · rw [Session.handle_rx_of_ne ht]
      exact h.rx
    · rw [Session.handle_rx_of_ne ht, Session.handle_launched]
      exact h.idle

/-- What has been written was read by the peer. -/
theorem tcpOut_isPrefix {cfg : Config} {peer : Session} (h : s.Follows code peer.tx.sent)
    (htx : peer.TxInv rs cfg) : s.rx.tcpOut <+: peer.tx.tcpIn := by
  obtain ⟨reads, -, -, -, htcp⟩ := htx.inv.1.reads
  rw [htcp]
  exact h.rx.tcpOut_isPrefix.trans (List.prefix_append _ _)

end Session.Follows

end Follows

/-! ## What a connection has sent -/

variable {τ : Type}

def Conn.session? (conn : Conn τ) : Option Session :=
  match conn.stage with
  | .established session => some session
  | _ => none

/-- The bytes read from the connection. -/
def Conn.tcpIn (conn : Conn τ) : Bytes :=
  (conn.session?.map fun session => session.tx.tcpIn).getD []

/-- The bytes written to the connection. -/
def Conn.tcpOut (conn : Conn τ) : Bytes :=
  (conn.session?.map fun session => session.rx.tcpOut).getD []

/-- The blocks of the connection. -/
def Conn.sent (conn : Conn τ) : List Block :=
  (conn.session?.map fun session => session.tx.sent).getD []

def Client.history (s : Client τ) (c : Nat) : List Block := ((s.conns[c]?).map Conn.sent).getD []

/-- No connection after number `c` was given this StreamID. -/
def Client.Newest (s : Client τ) (c : Nat) (id : UInt16) : Prop :=
  ∀ r ∈ s.requests.drop (c + 1), r.2 ≠ id

theorem Conn.session?_eq_some {conn : Conn τ} {session : Session} :
    conn.session? = some session ↔ conn.stage = .established session := by
  unfold session?
  split
  · simp [*]
  · rename_i hne
    simp only [reduceCtorEq, false_iff]
    exact hne session

theorem Client.history_eq {s : Client τ} {c : Nat} {conn : Conn τ} (hc : s.conns[c]? = some conn) :
    s.history c = conn.sent := by
  simp [history, hc]

theorem Client.Newest.le {s : Client τ} {c i : Nat} {id : UInt16} {r : Bytes × UInt16}
    (h : s.Newest c id) (hr : s.requests[i]? = some r) (hid : r.2 = id) : i ≤ c := by
  by_contra hlt
  refine h r (List.mem_iff_getElem?.mpr ⟨i - (c + 1), ?_⟩) hid
  rw [List.getElem?_drop, show c + 1 + (i - (c + 1)) = i by omega, hr]

section Client

variable {rs : ReedSolomon} {cc : PepConfig} {s s' : Client τ} {e : ClientEvent τ}
  {out : List (Nat × Bytes)}

theorem Client.exists_of_requests {c : Nat} {dest : Bytes} {id : UInt16}
    (h : s.requests[c]? = some (dest, id)) :
    ∃ conn, s.conns[c]? = some conn ∧ conn.dest = dest ∧ conn.streamID = id := by
  simp only [requests, List.getElem?_map, Option.map_eq_some_iff, Prod.mk.injEq] at h
  exact h

/-- The blocks of a connection are coded for its StreamID. -/
theorem Client.history_flushed (h : ∀ conn ∈ s.conns, conn.Sound rs cc) {c : Nat} {dest : Bytes}
    {id : UInt16} (hc : s.requests[c]? = some (dest, id)) :
    ∀ blk ∈ s.history c, Flushed rs (cc.session id) blk := by
  obtain ⟨conn, hconn, -, rfl⟩ := Client.exists_of_requests hc
  rw [Client.history_eq hconn]
  intro blk hblk
  unfold Conn.sent at hblk
  cases hses : conn.session? with
  | none => simp [hses] at hblk
  | some session =>
    have htx := h conn (List.mem_of_getElem? hconn) session (Conn.session?_eq_some.mp hses)
    exact htx.inv.1.blocks blk (by simpa [hses] using hblk)

theorem Client.history_modifyStage {c : Nat} {f : ConnStage τ → ConnStage τ}
    (hs : s'.conns = modifyStage s.conns c f)
    (hf : ∀ conn, s.conns[c]? = some conn →
      conn.sent <+: Conn.sent { conn with stage := f conn.stage }) (i : Nat) :
    s.history i <+: s'.history i := by
  unfold history
  rw [hs, getElem?_modifyStage]
  split
  · rename_i hci
    subst hci
    cases hc : s.conns[c]? with
    | none => simp
    | some conn => exact hf conn hc
  · exact List.prefix_refl _

theorem Conn.sent_prefix_of_ne {conn conn' : Conn τ} (h : conn.session? = none) :
    conn.sent <+: conn'.sent := by
  simp [Conn.sent, h]

/-- The history of every connection only grows. -/
theorem Client.Moved.history (hcc : cc.Works rs) (hm : Client.Moved rs cc s e s' out)
    (h : ∀ conn ∈ s.conns, conn.Sound rs cc) (i : Nat) : s.history i <+: s'.history i := by
  obtain ⟨n, code, himpl, hv⟩ := hcc
  have hmap : ∀ (c : Nat) (f : Session → Session),
      s'.conns = modifyStage s.conns c (.mapSession f) →
      (∀ session cfg, session.TxInv rs cfg → Extends session.tx (f session).tx) →
      s.history i <+: s'.history i := by
    intro c f hs hf
    refine Client.history_modifyStage hs (fun conn hc => ?_) i
    cases hses : conn.session? with
    | none => exact Conn.sent_prefix_of_ne hses
    | some session =>
      have hstage := Conn.session?_eq_some.mp hses
      have hext := hf session _ (h conn (List.mem_of_getElem? hc) session hstage)
      simpa [Conn.sent, Conn.session?, hstage, ConnStage.mapSession] using hext.sent
  cases hm with
  | exhausted | send | ignore | found | delete => exact List.prefix_refl _
  | accept dest lastID streamID hsearch =>
    simp only [Client.history]
    rcases Nat.lt_or_ge i s.conns.length with hlt | hge
    · rw [List.getElem?_append_left hlt]
    · rw [List.getElem?_eq_none hge]
      exact List.nil_prefix
  | openChannel c conn hc hstage | take c conn source hc hstage | refused c conn msg hc hstage
  | abandon c conn reply e hc hstage he | register c conn source hc hstage =>
    refine Client.history_modifyStage rfl (fun conn₁ hc₁ => Conn.sent_prefix_of_ne ?_) i
    obtain rfl := Option.some.inj (hc.symm.trans hc₁)
    simp [Conn.session?, hstage]
  | act c conn session e session' sent hc hstage hs =>
    refine Client.history_modifyStage rfl (fun conn₁ hc₁ => ?_) i
    obtain rfl := Option.some.inj (hc.symm.trans hc₁)
    have hext :=
      (Session.step_tx himpl (hv _) hs (h conn (List.mem_of_getElem? hc) session hstage)).2.1
    simpa [Conn.sent, Conn.session?, hstage] using hext.sent
  | answer source a p c hread ht hpend =>
    refine Client.history_modifyStage rfl (fun conn hc => ?_) i
    unfold ConnStage.answer
    split
    · rename_i hstage
      exact Conn.sent_prefix_of_ne (by simp [Conn.session?, hstage])
    · exact List.prefix_refl _
  | handle c conn session p loop hc hstage =>
    refine Client.history_modifyStage rfl (fun conn₁ hc₁ => ?_) i
    obtain rfl := Option.some.inj (hc.symm.trans hc₁)
    have hext := (Session.handle_tx (h conn (List.mem_of_getElem? hc) session hstage) p).2
    simpa [Conn.sent, Conn.session?, hstage] using hext.sent
  | finish c => exact hmap c _ rfl fun session cfg htx => (Session.finishHandler_tx htx).2
  | cleanup id c => exact hmap c _ rfl fun session cfg _ => Session.extends_close session

end Client

/-! ## Where the sessions of the server stand -/

namespace Stream

variable {α : Type} {rs : ReedSolomon} {pc : PepConfig} {id : UInt16} {st st' : Stream α}
  {out : List (Reply α)}

/-- Every session keeps its position and stands in the relation `R` to what it was. -/
def Preserves (R : Served α → Served α → Prop) (st st' : Stream α) : Prop :=
  ∀ (j : Nat) (o : Served α), st.served[j]? = some o → ∃ o', st'.served[j]? = some o' ∧ R o o'

variable {R : Served α → Served α → Prop}

theorem Preserves.refl (hrefl : ∀ o, R o o) (st : Stream α) : st.Preserves R st :=
  fun _ o ho => ⟨o, ho, hrefl o⟩

theorem Preserves.update (hrefl : ∀ o, R o o) {i : Nat} {f : Session → Session}
    (hf : ∀ o, st.served[i]? = some o → R o { o with session := f o.session }) :
    st.Preserves R (st.update i f) := by
  intro j o ho
  by_cases hij : i = j
  · subst hij
    exact ⟨{ o with session := f o.session }, by simp [Stream.update, ho], hf o ho⟩
  · exact ⟨o, by simp [Stream.update, hij, ho], hrefl o⟩

theorem Preserves.closeCurrent (hrefl : ∀ o, R o o)
    (hclose : ∀ o : Served α, R o { o with session := o.session.close }) :
    st.Preserves R st.closeCurrent := by
  unfold Stream.closeCurrent
  split
  · exact .update hrefl fun o _ => hclose o
  · exact .refl hrefl st

theorem Moved.preserves {ev : StreamEvent} (hm : Moved rs pc id st ev st' out) (hrefl : ∀ o, R o o)
    (hclose : ∀ o : Served α, R o { o with session := o.session.close })
    (hact : ∀ (i : Nat) (o : Served α) (e : SessionEvent) (session : Session) (sent : List Bytes),
      st.served[i]? = some o → o.session.step rs (pc.session id) e = some (session, sent) →
      R o { o with session }) :
    st.Preserves R st' := by
  cases hm with
  | dialOk | dialFail | sendAck => exact .refl hrefl st
  | register =>
    intro j o ho
    obtain ⟨o', ho', hr⟩ := Preserves.closeCurrent hrefl hclose j o ho
    exact ⟨o', by rw [List.getElem?_append_left (List.getElem?_eq_some_iff.mp ho').1, ho'], hr⟩
  | act i e o session sent ho hown hs =>
    refine .update hrefl fun o' ho' => ?_
    obtain rfl := Option.some.inj (ho.symm.trans ho')
    exact hact i o e session sent ho hs
  | cleanup => exact .closeCurrent hrefl hclose

theorem Handled.preserves {loop loop' : DemuxLoop α} (hh : Handled rs pc id st loop loop' st' out)
    (hrefl : ∀ o, R o o)
    (hhandle : ∀ (i : Nat) (o : Served α) (p : Packet), st.served[i]? = some o →
      R o { o with session := o.session.handle rs (pc.session id) p })
    (hfinish : ∀ (i : Nat) (o : Served α), st.served[i]? = some o →
      R o { o with session := o.session.finishHandler }) :
    st.Preserves R st' := by
  cases hh with
  | reack | delete => exact .refl hrefl st
  | handle p rAddr i o loop ho hid ht hloop =>
    refine .update hrefl fun o' ho' => ?_
    obtain rfl := Option.some.inj (ho.symm.trans ho')
    exact hhandle i o p ho
  | finish i => exact .update hrefl fun o ho => hfinish i o ho

/-- No session changes the address it was made for. -/
abbrev Stays (st st' : Stream α) : Prop := st.Preserves (fun o o' => o'.peer = o.peer) st'

theorem Stays.of_served (h : st'.served = st.served) : st.Stays st' :=
  fun _ o ho => ⟨o, h ▸ ho, rfl⟩

theorem Moved.stays {ev : StreamEvent} (hm : Moved rs pc id st ev st' out) : st.Stays st' :=
  hm.preserves (fun _ => rfl) (fun _ => rfl) fun _ _ _ _ _ _ _ => rfl

theorem Handled.stays {loop loop' : DemuxLoop α} (hh : Handled rs pc id st loop loop' st' out) :
    st.Stays st' :=
  hh.preserves (fun _ => rfl) (fun _ _ _ _ => rfl) fun _ _ _ => rfl

end Stream

/-! ## What the server was asked for -/

/-- What the server does under a StreamID, it was asked for by a connection. -/
structure Stream.Asked (requests : List (Bytes × UInt16)) (id : UInt16) (st : Stream Nat) :
    Prop where
  connects : ∀ k ∈ st.connects, requests[k.clientAddr]? = some (k.dest, id)
  served : ∀ (i : Nat) (o : Served Nat), st.served[i]? = some o →
    requests[o.peer]? = some (o.dest, id)

theorem getElem?_of_isPrefix {α : Type} {l l' : List α} (h : l <+: l') {i : Nat} {x : α}
    (hx : l[i]? = some x) :
    l'[i]? = some x := by
  obtain ⟨more, rfl⟩ := h
  rw [List.getElem?_append_left (List.getElem?_eq_some_iff.mp hx).1, hx]

theorem Stream.Asked.extend {requests requests' : List (Bytes × UInt16)} {id : UInt16}
    {st : Stream Nat} (h : st.Asked requests id) (hreq : requests <+: requests') :
    st.Asked requests' id :=
  ⟨fun k hk => getElem?_of_isPrefix hreq (h.connects k hk),
    fun i o ho => getElem?_of_isPrefix hreq (h.served i o ho)⟩

theorem Server.asked_step {rs : ReedSolomon} {pc : PepConfig} {requests : List (Bytes × UInt16)}
    {s s' : Server Nat} {e : ServerEvent Nat} {out : List (Reply Nat)}
    (hs : s.step rs pc e = some (s', out)) (hrecv : ∀ rAddr a, e = .recv rAddr a →
      SentBy requests (rAddr, a))
    (h : ∀ id, (s.stream id).Asked requests id) (id : UInt16) :
    (s'.stream id).Asked requests id := by
  refine Server.step_stream (P := Stream.Asked requests) hs ?_ ?_ ?_ h id
  · intro rAddr a p he hread hst
    unfold Stream.lookup
    split
    · exact hst
    · split
      · rename_i ht
        refine ⟨fun k hk => ?_, hst.served⟩
        rcases List.mem_append.mp hk with hk | hk
        · exact hst.connects k hk
        · obtain ⟨⟨dest, id⟩, hr, hsent⟩ := hrecv rAddr a he
          obtain ⟨hid, haddr⟩ := hsent p hread
          rw [List.mem_singleton.mp hk]
          show requests[rAddr]? = some (p.addr, p.streamID)
          rw [haddr ht, hid]
          exact hr
      · exact hst
  · intro id loop loop' st st' out hh hst
    refine ⟨hh.connects ▸ hst.connects, hh.served ?_ ?_ hst.served⟩
    · exact fun _ _ _ hq => hq
    · exact fun _ _ hq => hq
  · intro id ev st st' out hm hst
    refine ⟨fun k hk => ?_, hm.served ?_ ?_ ?_ hst.served⟩
    · obtain ⟨k', hk', hdest, haddr⟩ := hm.connects hk
      rw [← hdest, ← haddr]
      exact hst.connects k' hk'
    · exact fun _ _ hq => hq
    · exact fun _ _ _ _ _ _ _ hq => hq
    · exact fun k hk => hst.connects k hk

/-! ## The sessions of the server against the connections of the client -/

/-- A DATA packet comes from a block of connection `c`. -/
def FromConn (cc : PepConfig) (client : Client τ) (c : Nat) (p : Packet) : Prop :=
  p.type = .data → ∃ b, FromBlock (cc.session p.streamID) (client.history c) b p

/-- What the server has under a StreamID: the sessions follow the connections they were made
for, and what is at work is at work for the last connection with the StreamID. -/
structure Stream.Carries (cc : PepConfig) {n : Nat} (code : Code UInt8 cc.fecK n)
    (client : Client τ) (id : UInt16) (st : Stream Nat) : Prop where
  connects : ∀ k ∈ st.connects, client.Newest k.clientAddr id
  current : ∀ i, st.current = some i → ∃ o, st.served[i]? = some o ∧ client.Newest o.peer id
  served : ∀ (i : Nat) (o : Served Nat), st.served[i]? = some o →
    o.session.Follows code (client.history o.peer)

structure Server.Carries (cc : PepConfig) {n : Nat} (code : Code UInt8 cc.fecK n)
    (client : Client τ) (s : Server Nat) : Prop where
  stream : ∀ id, (s.stream id).Carries cc code client id
  found : ∀ p rAddr i, s.loop = .found p rAddr i →
    FromConn cc client rAddr p ∧ ∃ o, (s.stream p.streamID).served[i]? = some o ∧ o.peer = rAddr

/-- When a packet is one of the blocks `sent`, it is one in reach of the writer. -/
def Timely (cfg : Config) (sent : List Block) (r : Receiver) (p : Packet) : Prop :=
  (∃ b < sent.length, FromBlock cfg sent b p) → ∃ b < sent.length, FromBlock cfg sent b p ∧
    InTurn r b

instance (cfg : Config) (sent : List Block) (b : Nat) (p : Packet) :
    Decidable (FromBlock cfg sent b p) :=
  match h : sent[b]? with
  | some blk => decidable_of_iff (p ∈ blk.packets cfg b) (by simp [FromBlock, h])
  | none => .isFalse (by simp [FromBlock, h])

instance (cfg : Config) (sent : List Block) (r : Receiver) (p : Packet) :
    Decidable (Timely cfg sent r p) :=
  inferInstanceAs (Decidable ((∃ b < sent.length, FromBlock cfg sent b p) →
    ∃ b < sent.length, FromBlock cfg sent b p ∧ InTurn r b))

theorem FromBlock.lt {cfg : Config} {sent : List Block} {b : Nat} {p : Packet}
    (h : FromBlock cfg sent b p) :
    b < sent.length := by
  obtain ⟨blk, hb, -⟩ := h
  exact (List.getElem?_eq_some_iff.mp hb).1

section Server

variable {rs : ReedSolomon} {cc sc : PepConfig} {n : Nat} {code : Code UInt8 cc.fecK n}
  {client client' : Client τ} {s s' : Server Nat} {e : ServerEvent Nat} {out : List (Reply Nat)}
  {id : UInt16} {st st' : Stream Nat}

/-- The connections go on, and none is given a StreamID that is at work. -/
theorem Stream.Carries.extend (h : st.Carries cc code client id)
    (hhist : ∀ c, client.history c <+: client'.history c)
    (hnew : st.connects ≠ [] ∨ st.current ≠ none → ∀ c, client.Newest c id → client'.Newest c id) :
    st.Carries cc code client' id := by
  refine ⟨?_, ?_, ?_⟩
  · intro k hk
    exact hnew (Or.inl (List.ne_nil_of_mem hk)) _ (h.connects k hk)
  · intro i hi
    obtain ⟨o, ho, hnewest⟩ := h.current i hi
    exact ⟨o, ho, hnew (Or.inr (by simp [hi])) _ hnewest⟩
  · exact fun i o ho => (h.served i o ho).extend (hhist _)

theorem Stream.Carries.moved (hp : Peers rs cc sc code)
    (hsound : ∀ conn ∈ client.conns, conn.Sound rs cc) {ev : StreamEvent}
    (hm : Stream.Moved rs sc id st ev st' out) (hask : st.Asked client.requests id)
    (h : st.Carries cc code client id) : st'.Carries cc code client id := by
  refine ⟨?_, ?_, ?_⟩
  · intro k hk
    obtain ⟨k', hk', -, haddr⟩ := hm.connects hk
    rw [← haddr]
    exact h.connects k' hk'
  · intro i hi
    rcases hm.current hi with hcur | rfl
    · obtain ⟨o, ho, hnewest⟩ := h.current i hcur
      obtain ⟨o', ho', hpeer⟩ := hm.stays i o ho
      exact ⟨o', ho', hpeer ▸ hnewest⟩
    · cases hm with
      | register k dest clientAddr hk =>
        refine ⟨⟨clientAddr, dest, newSession (sc.session id)⟩, ?_,
          h.connects _ (List.mem_of_getElem? hk)⟩
        rw [← st.length_closeCurrent_served]
        exact List.getElem?_concat_length
      | cleanup => cases hi
      | dialOk | dialFail | sendAck | act =>
        obtain ⟨o, ho, -⟩ := h.current _ hi
        simp at ho
  · have hboth : ∀ (i : Nat) (o : Served Nat), st'.served[i]? = some o →
        client.requests[o.peer]? = some (o.dest, id) ∧
        o.session.Follows code (client.history o.peer) := by
      refine hm.served (Q := fun _ o => client.requests[o.peer]? = some (o.dest, id) ∧
        o.session.Follows code (client.history o.peer)) ?_ ?_ ?_ fun i o ho => ⟨hask.served i o ho,
        h.served i o ho⟩
      · exact fun _ o hq => ⟨hq.1, hq.2.close⟩
      · exact fun _ o e session sent hs hown hq =>
          ⟨hq.1, hq.2.step hp (Client.history_flushed hsound hq.1) hs hown⟩
      · exact fun k hk => ⟨hask.connects k hk, (Session.Follows.new _).extend List.nil_prefix⟩
    exact fun i o ho => (hboth i o ho).2

theorem Stream.Carries.handled (hp : Peers rs cc sc code)
    (hsound : ∀ conn ∈ client.conns, conn.Sound rs cc) {loop loop' : DemuxLoop Nat}
    (hh : Stream.Handled rs sc id st loop loop' st' out) (hask : st.Asked client.requests id)
    (h : st.Carries cc code client id) (hdata : ∀ p rAddr i o, loop = .found p rAddr i →
      p.streamID = id → st.served[i]? = some o → p.type = .data → ∃ b, FromBlock (cc.session id)
      (client.history o.peer) b p ∧ InTurn o.session.rx b) :
    st'.Carries cc code client id := by
  have hcurrent : ∀ i, st'.current = some i → ∃ o, st'.served[i]? = some o ∧
      client.Newest o.peer id := by
    intro i hi
    have hcur : st.current = some i := by
      cases hh with
      | reack | handle | finish => exact hi
      | delete => cases hi
    obtain ⟨o, ho, hnewest⟩ := h.current i hcur
    obtain ⟨o', ho', hpeer⟩ := hh.stays i o ho
    exact ⟨o', ho', hpeer ▸ hnewest⟩
  refine ⟨hh.connects ▸ h.connects, hcurrent, ?_⟩
  cases hh with
  | reack | delete => exact h.served
  | handle p rAddr i o loop ho hid ht hloop =>
    refine Stream.served_update h.served fun o' ho' hq => ?_
    obtain rfl := Option.some.inj (ho.symm.trans ho')
    exact hq.handle hp (Client.history_flushed hsound (hask.served i o ho))
      (hdata p rAddr i o rfl hid ho)
  | finish i => exact Stream.served_update h.served fun o _ hq => hq.finishHandler

/-- **Step lemma for the server.** A packet arrives from the last connection with its
StreamID, and a DATA packet is handed over in reach of the writer. -/
theorem Server.Carries.step (hp : Peers rs cc sc code)
    (hsound : ∀ conn ∈ client.conns, conn.Sound rs cc)
    (hask : ∀ id, (s.stream id).Asked client.requests id) (h : s.Carries cc code client)
    (hs : s.step rs sc e = some (s', out))
    (hrecv : ∀ rAddr a p, e = .recv rAddr a → readUDP a = .ok p → client.Newest rAddr p.streamID ∧
      FromConn cc client rAddr p ∧ ∃ dest, client.requests[rAddr]? = some (dest, p.streamID))
    (htimely : ∀ id p rAddr i o, e = .demux id .dispatch → s.loop = .found p rAddr i →
      (s.stream id).served[i]? = some o →
      Timely (cc.session p.streamID)
      (client.history rAddr) o.session.rx p) : s'.Carries cc code client := by
  -- a change under one StreamID
  have hset : ∀ id' loop st, st.Carries cc code client id' → (s.stream id').Stays st →
      (loop = .read ∨ loop = s.loop ∨ (∀ p rAddr i, loop ≠ .found p rAddr i)) →
      (s.set id' loop st).Carries cc code client := by
    intro id' loop st hst hstays hloop
    refine ⟨fun id => ?_, fun p rAddr i hfound => ?_⟩
    · by_cases hid : id = id'
      · subst hid
        simpa [Server.set] using hst
      · simpa [Server.set, hid] using h.stream id
    · rcases hloop with rfl | rfl | hne
      · cases hfound
      · obtain ⟨hfrom, o, ho, hpeer⟩ := h.found p rAddr i hfound
        refine ⟨hfrom, ?_⟩
        by_cases hid : p.streamID = id'
        · subst hid
          obtain ⟨o', ho', hpeer'⟩ := hstays i o ho
          exact ⟨o', by simpa [Server.set] using ho', hpeer'.trans hpeer⟩
        · exact ⟨o, by simpa [Server.set, hid] using ho, hpeer⟩
      · exact absurd hfound (hne p rAddr i)
  rcases Server.step_cases hs with ⟨rAddr, a, err, rfl, -, -, rfl, rfl⟩ |
    ⟨rAddr, a, p, rfl, hread, -, rfl, rfl⟩ | ⟨id', ev, loop, st, rfl, hev, rfl⟩ | ⟨id', ev, st, rfl,
      hev, rfl⟩
  · exact h
  · obtain ⟨hnewest, hfrom, dest, hr⟩ := hrecv rAddr a p rfl hread
    have hst := h.stream p.streamID
    unfold Stream.lookup
    split
    · rename_i i hi
      obtain ⟨o, ho, hnewest'⟩ := hst.current i hi
      -- both are the last connection with this StreamID
      have hpeer : o.peer = rAddr :=
        Nat.le_antisymm (hnewest.le ((hask _).served i o ho) rfl) (hnewest'.le hr rfl)
      refine ⟨fun id => ?_, ?_⟩
      · by_cases hid : id = p.streamID
        · subst hid
          simpa [Server.set] using hst
        · simpa [Server.set, hid] using h.stream id
      · rintro p' rAddr' i' ⟨⟩
        exact ⟨hfrom, o, by simpa [Server.set] using ho, hpeer⟩
    · split
      · refine hset _ _ _ ⟨fun k hk => ?_, hst.current, hst.served⟩ (.of_served rfl) (Or.inl rfl)
        rcases List.mem_append.mp hk with hk | hk
        · exact hst.connects k hk
        · rw [List.mem_singleton.mp hk]
          exact hnewest
      · exact hset _ _ _ hst (.of_served rfl) (Or.inl rfl)
  · have hh := Stream.demux_handled hev
    refine hset _ _ _ ?_ hh.stays ?_
    · refine (h.stream id').handled hp hsound hh (hask id') fun p rAddr i o hfound hid ho ht => ?_
      subst hid
      obtain ⟨hfrom, o', ho', hpeer⟩ := h.found p rAddr i hfound
      obtain rfl := Option.some.inj (ho.symm.trans ho')
      obtain rfl : ev = .dispatch := by
        rw [hfound] at hev
        cases ev with
        | dispatch => rfl
        | finish | delete => cases hev
      obtain ⟨b, hb⟩ := hfrom ht
      obtain ⟨b', -, hb', hturn⟩ := htimely p.streamID p rAddr i o rfl hfound ho ⟨b, hb.lt, hb⟩
      rw [hpeer]
      exact ⟨b', hb', hturn⟩
    · generalize s.loop = loop₀ at hh
      cases hh with
      | reack | finish | delete => exact Or.inl rfl
      | handle p rAddr i o loop ho hid ht hloop =>
        rcases hloop with rfl | rfl | rfl
        · exact Or.inl rfl
        · exact Or.inr (Or.inr (by simp))
        · exact Or.inr (Or.inr (by simp))
  · have hm := Stream.step_moved hev
    exact hset _ _ _ ((h.stream id').moved hp hsound hm (hask id')) hm.stays (Or.inr (Or.inl rfl))

end Server

/-! ## A client and a server -/

/-- What a step of the pair can be: a step of one end, an arrival, or losses alone. -/
theorem Pair.step_cases {rs : ReedSolomon} {cc sc : PepConfig} {s s' : Pair} {e : PairEvent}
    (hs : s.step rs cc sc e = some s') :
    (∃ ev, e = .client ev ∧ (∀ source a, ev ≠ .recv source a) ∧ s.clientStep rs cc ev = some s') ∨
    (∃ ev, e = .server ev ∧ (∀ rAddr a, ev ≠ .recv rAddr a) ∧ s.serverStep rs sc ev = some s') ∨
    (∃ (i : Nat) (again : Bool) (m : Nat × Bytes) (s₁ : Pair), e = .deliverServer i again ∧
      s.toServer[i]? = some m ∧ s.serverStep rs sc (.recv m.1 m.2) = some s₁ ∧ s₁.Loses s') ∨
    (∃ (i : Nat) (again : Bool) (m : Option Answer × Bytes) (s₁ : Pair),
      e = .deliverClient i again ∧ s.toClient[i]? = some m ∧ s.clientStep rs cc
      (.recv m.1 m.2) = some s₁ ∧ s₁.Loses s') ∨
    s.Loses s' := by
  cases e with
  | client ev =>
    simp only [Pair.step] at hs
    split at hs
    · cases hs
    · rename_i hne
      exact Or.inl ⟨ev, rfl, hne, hs⟩
  | server ev =>
    simp only [Pair.step] at hs
    split at hs
    · cases hs
    · rename_i hne
      exact Or.inr (Or.inl ⟨ev, rfl, hne, hs⟩)
  | deliverServer i again =>
    simp only [Pair.step] at hs
    split at hs
    · rename_i m hm
      have hlose : ∃ s₁, s.serverStep rs sc (.recv m.1 m.2) = some s₁ ∧ s₁.Loses s' := by
        split at hs
        · exact (Pair.Loses.refl s).serverStep hs
        · exact (Pair.Loses.eraseServer s i).serverStep hs
      obtain ⟨s₁, hs₁, hl⟩ := hlose
      exact Or.inr (Or.inr (Or.inl ⟨i, again, m, s₁, rfl, hm, hs₁, hl⟩))
    · cases hs
  | deliverClient i again =>
    simp only [Pair.step] at hs
    split at hs
    · rename_i m hm
      have hlose : ∃ s₁, s.clientStep rs cc (.recv m.1 m.2) = some s₁ ∧ s₁.Loses s' := by
        split at hs
        · exact (Pair.Loses.refl s).clientStep hs
        · exact (Pair.Loses.eraseClient s i).clientStep hs
      obtain ⟨s₁, hs₁, hl⟩ := hlose
      exact Or.inr (Or.inr (Or.inr (Or.inl ⟨i, again, m, s₁, rfl, hm, hs₁, hl⟩)))
    · cases hs
  | dropServer i =>
    simp only [Pair.step, Option.ite_none_right_eq_some, Option.some.injEq] at hs
    obtain ⟨-, rfl⟩ := hs
    exact Or.inr (Or.inr (Or.inr (Or.inr (.eraseServer s i))))
  | dropClient i =>
    simp only [Pair.step, Option.ite_none_right_eq_some, Option.some.injEq] at hs
    obtain ⟨-, rfl⟩ := hs
    exact Or.inr (Or.inr (Or.inr (Or.inr (.eraseClient s i))))

/-- What both directions rest on: the handshakes, and what the server was asked for. -/
structure Grounded (rs : ReedSolomon) (cc sc : PepConfig) {n : Nat} (code : Code UInt8 sc.fecK n)
    (s : Pair) :
    Prop extends PairInv rs cc sc code s where
  asked : ∀ id, (s.server.stream id).Asked s.client.requests id

section Grounded

variable {rs : ReedSolomon} {cc sc : PepConfig} {n : Nat} {code : Code UInt8 sc.fecK n}
  {s s' : Pair}

theorem grounded_init : Grounded rs cc sc code {} where
  toPairInv := pairInv_init
  asked id := ⟨fun k hk => by simp at hk, fun i o ho => by simp at ho⟩

theorem Client.Moved.requests_isPrefix {client client' : Client τ} {e : ClientEvent τ}
    {out : List (Nat × Bytes)} (hm : Client.Moved rs cc client e client' out) :
    client.requests <+: client'.requests := by
  rcases hm.requests with heq | ⟨dest, lastID, id, -, -, hconns⟩
  · rw [heq]
  · rw [Client.requests, Client.requests, hconns, List.map_append]
    exact List.prefix_append _ _

theorem Grounded.step (himpl : Implements rs code) (hv : ∀ id, (sc.session id).Valid n)
    (hcc : cc.Works rs) {e : PairEvent} (h : Grounded rs cc sc code s) (hok : Orderly s e)
    (hs : s.step rs cc sc e = some s') :
    Grounded rs cc sc code s' := by
  refine ⟨h.toPairInv.step himpl hv hcc hok hs, ?_⟩
  have hclient : ∀ {ev s₁}, s.clientStep rs cc ev = some s₁ →
      ∀ id, (s₁.server.stream id).Asked s₁.client.requests id := by
    intro ev s₁ hs id
    simp only [Pair.clientStep, Option.map_eq_some_iff, Prod.exists] at hs
    obtain ⟨client, out, hstep, rfl⟩ := hs
    exact (h.asked id).extend (Client.step_moved hstep).requests_isPrefix
  have hserver : ∀ {ev s₁}, s.serverStep rs sc ev = some s₁ →
      (∀ rAddr a, ev = .recv rAddr a → SentBy s.client.requests (rAddr, a)) →
      ∀ id, (s₁.server.stream id).Asked s₁.client.requests id := by
    intro ev s₁ hs hrecv
    simp only [Pair.serverStep, Option.map_eq_some_iff, Prod.exists] at hs
    obtain ⟨server, out, hstep, rfl⟩ := hs
    exact Server.asked_step hstep hrecv h.asked
  rcases Pair.step_cases hs with ⟨ev, rfl, hne, hs⟩ | ⟨ev, rfl, hne, hs⟩ |
    ⟨i, again, m, s₁, rfl, hm, hs, hl⟩ |
    ⟨i, again, m, s₁, rfl, hm, hs, hl⟩ | hl
  · exact hclient hs
  · exact hserver hs fun rAddr a he => absurd he (hne rAddr a)
  · rw [hl.server, hl.client]
    refine hserver hs ?_
    rintro _ _ ⟨⟩
    exact h.toServer m (List.mem_of_getElem? hm)
  · rw [hl.server, hl.client]
    exact hclient hs
  · rw [hl.server, hl.client]
    exact h.asked

end Grounded

/-! ## Upload -/

/-- The server hands a DATA packet to a session only in reach of its writer. -/
def UploadInTime (cc : PepConfig) (s : Pair) : PairEvent → Prop
  | .server (.demux id .dispatch) =>
    match s.server.loop with
    | .found p rAddr i => ∀ o ∈ (s.server.stream id).served[i]?,
        Timely (cc.session p.streamID) (s.client.history rAddr) o.session.rx p
    | _ => True
  | _ => True

instance (cc : PepConfig) (s : Pair) (e : PairEvent) : Decidable (UploadInTime cc s e) :=
  match e with
  | .server (.demux id .dispatch) =>
    match h : s.server.loop with
    | .found p rAddr i => decidable_of_iff
        (∀ o ∈ (s.server.stream id).served[i]?,
          Timely (cc.session p.streamID) (s.client.history rAddr) o.session.rx p) (by
          simp [UploadInTime, h])
    | .read | .handler _ _ | .reset _ => .isTrue (by simp [UploadInTime, h])
  | .server (.demux _ .finish) | .server (.demux _ .delete) | .server (.recv _ _) | .server
      (.stream _ _)
  | .client _ | .deliverServer _ _ | .deliverClient _ _ | .dropServer _ | .dropClient _ =>
    .isTrue trivial

/-- The sessions of the server follow the client, and so do the datagrams on their way. -/
structure Uploads (cc : PepConfig) {n : Nat} (code : Code UInt8 cc.fecK n) (s : Pair) : Prop where
  server : s.server.Carries cc code s.client
  toServer : ∀ m ∈ s.toServer, ∀ p, readUDP m.2 = .ok p → FromConn cc s.client m.1 p

section Upload

variable {rs : ReedSolomon} {cc sc : PepConfig} {n : Nat} {code : Code UInt8 cc.fecK n}
  {s s' : Pair}

theorem FromConn.mono {client client' : Client τ} {c : Nat} {p : Packet}
    (h : FromConn cc client c p) (hhist : client.history c <+: client'.history c) :
    FromConn cc client' c p := by
  intro ht
  obtain ⟨b, hb⟩ := h ht
  exact ⟨b, hb.mono hhist⟩

/-- A DATA packet that a client sends is one of the connection it is sent for. -/
theorem Client.Moved.fromConn (hcc : cc.Works rs) {client client' : Client τ} {e : ClientEvent τ}
    {out : List (Nat × Bytes)} (hm : Client.Moved rs cc client e client' out)
    (hsound : ∀ conn ∈ client.conns, conn.Sound rs cc) {m : Nat × Bytes} (hmem : m ∈ out)
    {p : Packet} (hread : readUDP m.2 = .ok p) : FromConn cc client' m.1 p := by
  obtain ⟨n, code, himpl, hv⟩ := hcc
  intro ht
  cases hm with
  | send c conn reply buf hc hstage hmar =>
    rw [List.mem_singleton.mp hmem] at hread
    cases (readUDP_addr (Or.inl rfl) hmar).symm.trans hread
    cases ht
  | act c conn session e session' sent hc hstage hs =>
    obtain ⟨a, ha, rfl⟩ := List.mem_map.mp hmem
    obtain ⟨htx, -, hsent⟩ := Session.step_tx himpl (hv conn.streamID) hs
      (hsound conn (List.mem_of_getElem? hc) session hstage)
    obtain ⟨q, hq, hid, hkind⟩ := (hsent a ha).read himpl (hv conn.streamID) htx.inv
    obtain rfl := Except.ok.inj (hq.symm.trans hread)
    have hhist : Client.history { client with
        conns := Client.modifyStage client.conns c fun _ => .established session' } c =
          session'.tx.sent := by
      simp [Client.history, Client.getElem?_modifyStage, hc, Conn.sent, Conn.session?]
    rcases hkind with hb | ⟨ht', -⟩ | ⟨ht', -⟩ | ht' | ht'
    · show ∃ b, FromBlock (cc.session q.streamID) _ b q
      rw [hhist, hid]
      exact hb
    all_goals
      rw [ht] at ht'
      cases ht'
  | _ => cases hmem

theorem uploads_init : Uploads cc code {} where
  server :=
    { stream id := ⟨fun k hk => by simp at hk, fun i hi => by simp at hi, fun i o ho => by
      simp at ho⟩
      found p rAddr i hfound := by cases hfound }
  toServer m hm := by simp at hm

theorem Uploads.lose (h : Uploads cc code s) (hl : s.Loses s') : Uploads cc code s' := by
  refine ⟨?_, ?_⟩
  · rw [hl.client, hl.server]
    exact h.server
  · rw [hl.client]
    exact fun m hm => h.toServer m (hl.toServer m hm)

/-- The last connection with a StreamID stays the last one until the StreamID is given out. -/
theorem Client.Moved.newest {client client' : Client τ} {e : ClientEvent τ}
    {out : List (Nat × Bytes)} (hm : Client.Moved rs cc client e client' out) {c : Nat}
    {id : UInt16} (h : client.Newest c id) :
    client'.Newest c id ∨ ∃ dest lastID, e = .accept dest ∧
      getNextStreamID client.sessions client.lastID = some (lastID, some id) := by
  rcases hm.requests with heq | ⟨dest, lastID, id', rfl, hsearch, hconns⟩
  · left
    unfold Client.Newest
    rw [heq]
    exact h
  · by_cases hid : id' = id
    · subst hid
      exact Or.inr ⟨dest, lastID, rfl, hsearch⟩
    · left
      have hreq : client'.requests = client.requests ++ [(dest, id')] := by
        simp [Client.requests, hconns]
      intro r hr
      rw [hreq, List.drop_append] at hr
      rcases List.mem_append.mp hr with hr | hr
      · exact h r hr
      · rw [List.mem_singleton.mp (List.mem_of_mem_drop hr)]
        exact hid

theorem Uploads.clientStep (hcc : cc.Works rs) {e : ClientEvent (Option Answer)}
    (h : Uploads cc code s) (hsound : ∀ conn ∈ s.client.conns, conn.Sound rs cc)
    (hs : s.clientStep rs cc e = some s') (haccept : ∀ dest, e = .accept dest → ∀ lastID id,
      getNextStreamID s.client.sessions s.client.lastID = some (lastID, some id) → Unused s id) :
    Uploads cc code s' := by
  simp only [Pair.clientStep, Option.map_eq_some_iff, Prod.exists] at hs
  obtain ⟨client, out, hstep, rfl⟩ := hs
  have hm := Client.step_moved hstep
  have hhist := hm.history hcc hsound
  refine ⟨⟨fun id => ?_, fun p rAddr i hfound => ?_⟩, fun m hmem p hread => ?_⟩
  · refine (h.server.stream id).extend hhist fun hwork c hnewest => ?_
    rcases hm.newest hnewest with hnew | ⟨dest, lastID, he, hsearch⟩
    · exact hnew
    · have hu := haccept dest he lastID id hsearch
      rcases hwork with hne | hne
      · exact absurd hu.connects hne
      · exact absurd hu.current hne
  · obtain ⟨hfrom, ho⟩ := h.server.found p rAddr i hfound
    exact ⟨hfrom.mono (hhist _), ho⟩
  · rcases List.mem_append.mp hmem with hmem | hmem
    · exact (h.toServer m hmem p hread).mono (hhist _)
    · exact hm.fromConn hcc hsound hmem hread

theorem Uploads.serverStep (hp : Peers rs cc sc code) {n' : Nat} {code' : Code UInt8 sc.fecK n'}
    (hbase : Grounded rs cc sc code' s) {e : ServerEvent Nat} (h : Uploads cc code s)
    (hs : s.serverStep rs sc e = some s')
    (hrecv : ∀ rAddr a, e = .recv rAddr a → (rAddr, a) ∈ s.toServer ∧
      ∀ p, readUDP a = .ok p → Latest s rAddr p.streamID)
    (htime : UploadInTime cc s (.server e)) : Uploads cc code s' := by
  simp only [Pair.serverStep, Option.map_eq_some_iff, Prod.exists] at hs
  obtain ⟨server, out, hstep, rfl⟩ := hs
  refine ⟨h.server.step hp hbase.client hbase.asked hstep ?_ ?_, h.toServer⟩
  · intro rAddr a p he hread
    obtain ⟨hmem, hlatest⟩ := hrecv rAddr a he
    obtain ⟨⟨dest, id⟩, hr, hsent⟩ := hbase.toServer _ hmem
    obtain ⟨rfl, -⟩ := hsent p hread
    exact ⟨hlatest p hread, h.toServer _ hmem p hread, dest, hr⟩
  · rintro id p rAddr i o rfl hfound ho
    simp only [UploadInTime, hfound] at htime
    exact htime o ho

theorem Uploads.step (hp : Peers rs cc sc code) (hcc : cc.Works rs) {n' : Nat}
    {code' : Code UInt8 sc.fecK n'} (hbase : Grounded rs cc sc code' s) {e : PairEvent}
    (h : Uploads cc code s) (hok : Orderly s e) (htime : UploadInTime cc s e)
    (hs : s.step rs cc sc e = some s') : Uploads cc code s' := by
  rcases Pair.step_cases hs with ⟨ev, rfl, hne, hs⟩ | ⟨ev, rfl, hne, hs⟩ |
    ⟨i, again, m, s₁, rfl, hm, hs, hl⟩ |
    ⟨i, again, m, s₁, rfl, hm, hs, hl⟩ | hl
  · refine h.clientStep hcc hbase.client hs ?_
    rintro dest rfl lastID id hsearch
    exact hok id (by simp [Client.nextStreamID, hsearch])
  · exact h.serverStep hp hbase hs (fun rAddr a he => absurd he (hne rAddr a)) htime
  · refine Uploads.lose (h.serverStep hp hbase hs ?_ trivial) hl
    rintro _ _ ⟨⟩
    exact ⟨List.mem_of_getElem? hm, fun p hread => hok m hm p (by rw [hread]; rfl)⟩
  · refine Uploads.lose (h.clientStep hcc hbase.client hs ?_) hl
    rintro dest ⟨⟩
  · exact h.lose hl

end Upload

/-- **Upload of the whole proxy.** Let a StreamID be given out only when nothing is left of
its earlier connections, let no packet of these arrive at the server later, and let every DATA
packet be handed over in reach of the writer. Then every session the server has ever made was
dialled to what its connection asked for, and what it has written to its target is a prefix of
what the client has read from that very connection. -/
theorem relay_upload {rs : ReedSolomon} {cc sc : PepConfig} (hcc : cc.Works rs) (hsc : sc.Works rs)
    (hk : sc.fecK = cc.fecK) (hm : sc.fecM = cc.fecM) {s : Pair}
    (hr : Reach (pair rs cc sc) (fun s e => Orderly s e ∧ UploadInTime cc s e) s) {id : UInt16}
    {o : Served Nat} (ho : o ∈ (s.server.stream id).served) :
    ∃ conn, s.client.conns[o.peer]? = some conn ∧ conn.dest = o.dest ∧ conn.streamID = id ∧
      o.session.rx.tcpOut <+: conn.tcpIn := by
  obtain ⟨n, code, hp⟩ := Peers.of_works hcc hsc hk hm
  obtain ⟨n', code', himpl, hv⟩ := hsc
  have hinv : Grounded rs cc sc code' s ∧ Uploads cc code s := by
    refine hr.invariant (I := fun s => Grounded rs cc sc code' s ∧ Uploads cc code s)
      ⟨grounded_init, uploads_init⟩ ?_
    rintro s e s' ⟨hbase, hup⟩ ⟨hok, htime⟩ hs
    exact ⟨hbase.step himpl hv hcc hok hs, hup.step hp hcc hbase hok htime hs⟩
  obtain ⟨hbase, hup⟩ := hinv
  obtain ⟨i, hi⟩ := List.mem_iff_getElem?.mp ho
  obtain ⟨conn, hconn, hdest, hid⟩ := Client.exists_of_requests ((hbase.asked id).served i o hi)
  have hf := (hup.server.stream id).served i o hi
  rw [Client.history_eq hconn] at hf
  refine ⟨conn, hconn, hdest, hid, ?_⟩
  cases hses : conn.session? with
  | none =>
    have hnone : o.session.rx.tcpOut <+: [] := by
      simpa [Conn.sent, hses] using hf.rx.tcpOut_isPrefix
    simpa [Conn.tcpIn, hses] using hnone
  | some session =>
    have htx :=
      hbase.client conn (List.mem_of_getElem? hconn) session (Conn.session?_eq_some.mp hses)
    have hfollows : o.session.Follows code session.tx.sent := by simpa [Conn.sent, hses] using hf
    simpa [Conn.tcpIn, hses] using hfollows.tcpOut_isPrefix htx

/-- Connection 0 is established, and its first block is written. -/
def firstUpload : List PairEvent :=
  firstHandshake ++ [.client (.conn 0 .register)] ++ oneBlock.flatMap asPair

theorem relay_upload_small :
    ∃ s o conn, Reach smallPair (fun s e => Orderly s e ∧ UploadInTime smallPep s e) s ∧
      o ∈ (s.server.stream 1).served ∧ o.session.rx.tcpOut = [7] ∧
      s.client.conns[o.peer]? = some conn ∧
      conn.dest = o.dest ∧ conn.streamID = 1 ∧ o.session.rx.tcpOut <+: conn.tcpIn := by
  obtain ⟨s, hr, hserved⟩ :
      ∃ s, Reach smallPair (fun s e => Orderly s e ∧ UploadInTime smallPep s e) s ∧
        (s.server.stream 1).served.map (fun o => o.session.rx.tcpOut) = [[7]] :=
    Reach.exists_of_runOk _ firstUpload (by decide +kernel)
  obtain ⟨o, ho, hout⟩ := List.map_eq_singleton_iff.mp hserved
  have hmem : o ∈ (s.server.stream 1).served := by
    rw [ho]
    exact List.mem_singleton_self o
  obtain ⟨conn, hconn⟩ := relay_upload smallPep_works smallPep_works rfl rfl hr hmem
  exact ⟨s, o, conn, hr, hmem, hout, hconn⟩

end TcpPep
