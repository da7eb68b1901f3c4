import TcpPep.Lib.Progress
import TcpPep.Proxy.Demux
import TcpPep.Proxy.Registry

/-!
A handshake can always be completed.

`handleTCPConn` sends its CONNECT again and again until an answer comes. Whatever has happened
before, at either end and on the network, the connection can still be established, as long as its
channel is the one in `pendingConnects`.

* `Pair.Staffed`: what every run keeps of the two demultiplexers;
* `Client.Awaits`: a connection that waits for its answer;
* `Helps`: the steps that such a connection needs from others; nothing is lost;
* `Pair.quiesce`: both demultiplexers get back to their reads;
* `Pair.answered`, `Pair.established`: the server answers, from the session it has or from a new
  one, and the client takes the answer;
* `handshake_completable`: from every reachable state, the connection can be established, and with
  whom.
-/

namespace TcpPep

open Protocol Fec Events FiniteMap

/-! ## The two demultiplexers -/

/-- Both tables hold sessions that exist, only the session at the desk has a handler under way, and
an entry of `pendingConnects` is the channel of a connection that waits. -/
structure Pair.Staffed (s : Pair) : Prop where
  serverListed : s.server.Listed
  server : Tended s.server.handlerAt s.server.desk
  clientListed : s.client.Listed
  client : Tended s.client.handlerAt s.client.desk
  pending : s.client.Pending

section Staffed

variable {rs : ReedSolomon} {cc sc : PepConfig} {s s' : Pair}

theorem Pair.Staffed.clientStep (h : s.Staffed) {e : ClientEvent (Option Answer)}
    (hs : s.clientStep rs cc e = some s') : s'.Staffed := by
  simp only [Pair.clientStep, Option.map_eq_some_iff, Prod.exists] at hs
  obtain ⟨client, out, hstep, rfl⟩ := hs
  exact ⟨h.serverListed, h.server, h.clientListed.step hstep,
    h.client.step (Client.step_attends h.clientListed hstep),
    h.pending.moved (Client.step_moved hstep)⟩

theorem Pair.Staffed.serverStep (h : s.Staffed) {e : ServerEvent Nat}
    (hs : s.serverStep rs sc e = some s') :
    s'.Staffed := by
  simp only [Pair.serverStep, Option.map_eq_some_iff, Prod.exists] at hs
  obtain ⟨server, out, hstep, rfl⟩ := hs
  exact ⟨h.serverListed.step hstep, h.server.step (Server.step_attends h.serverListed hstep),
    h.clientListed, h.client, h.pending⟩

theorem Pair.Staffed.lose (h : s.Staffed) (hl : s.Loses s') : s'.Staffed := by
  constructor
  · rw [hl.server]
    exact h.serverListed
  · rw [hl.server]
    exact h.server
  · rw [hl.client]
    exact h.clientListed
  · rw [hl.client]
    exact h.client
  · rw [hl.client]
    exact h.pending

theorem Pair.Staffed.step (h : s.Staffed) {e : PairEvent} (hs : s.step rs cc sc e = some s') :
    s'.Staffed := by
  rcases Pair.step_cases hs with ⟨ev, -, -, hs⟩ | ⟨ev, -, -, hs⟩ | ⟨i, again, m, s₁, -, -, hs, hl⟩ |
    ⟨i, again, m, s₁, -, -, hs, hl⟩ | hl
  · exact h.clientStep hs
  · exact h.serverStep hs
  · exact (h.serverStep hs).lose hl
  · exact (h.clientStep hs).lose hl
  · exact h.lose hl

theorem staffed_of_reach {ok : Pair → PairEvent → Prop} (hr : Reach (pair rs cc sc) ok s) :
    s.Staffed := by
  refine hr.invariant (I := Pair.Staffed) ?_ fun s e s' h _ hs => h.step hs
  have hserver := @server_tended Nat rs sc (fun _ _ => True) _ .init
  have hclient := @client_tended (Option Answer) rs cc (fun _ _ => True) _ .init
  exact ⟨hserver.1, hserver.2, hclient.1, hclient.2.2, hclient.2.1⟩

end Staffed

/-! ## A connection that waits -/

/-- Connection `c` to `dest` waits, and its channel is the one in `pendingConnects`. -/
structure Client.Awaits {τ : Type} (c : Nat) (dest : Bytes) (id : UInt16) (s : Client τ) :
    Prop where
  conn : s.conns[c]? = some ⟨dest, id, .waiting none⟩
  pending : s.pendingConnects.lookup id = some c

theorem Client.Awaits.demux {τ : Type} {rs : ReedSolomon} {pc : PepConfig} {c : Nat} {dest : Bytes}
    {id : UInt16} {s s' : Client τ} {ev : DemuxEvent} {out : List (Nat × Bytes)}
    (h : s.Awaits c dest id) (hs : s.step rs pc (.demux ev) = some (s', out)) :
    s'.Awaits c dest id ∧ out = [] := by
  have hconn := h.conn
  cases Client.step_moved hs with
  | handle c' conn session p loop hc hstage =>
    refine ⟨⟨?_, h.pending⟩, rfl⟩
    rw [Client.getElem?_modifyStage]
    split
    · rename_i hcc
      subst hcc
      obtain rfl := Option.some.inj (hc.symm.trans hconn)
      cases hstage
    · exact hconn
  | finish c' =>
    refine ⟨⟨?_, h.pending⟩, rfl⟩
    rw [Client.getElem?_modifyStage]
    split
    · rw [hconn]
      rfl
    · exact hconn
  | delete id' => exact ⟨⟨hconn, h.pending⟩, rfl⟩

/-- The steps of the demultiplexers, of the connection and of its `handleConnect`, and arrivals. -/
def Helps (c : Nat) (id : UInt16) (_ : Pair) : PairEvent → Prop
  | .client (.demux _) | .server (.demux _ _) | .deliverServer _ _ | .deliverClient _ _ => True
  | .client (.conn c' e) => c' = c ∧ (e = .send ∨ e = .take ∨ e = .register)
  | .server (.stream id' e) => id' = id ∧ ∃ k, e = .dialOk k ∨ e = .sendAck k ∨ e = .register k
  | _ => False

section Establish

variable {rs : ReedSolomon} {cc sc : PepConfig} {c : Nat} {dest buf : Bytes} {id : UInt16}
  {s : Pair}

/-- The connection waits; if `free` then the server has no session under its StreamID. -/
structure Pair.Open (c : Nat) (dest : Bytes) (id : UInt16) (free : Prop) (s : Pair) : Prop where
  awaits : s.client.Awaits c dest id
  none : free → (s.server.stream id).current = none

/-- The server's demultiplexer gives no session to a StreamID. -/
theorem Server.demux_current {s s' : Server Nat} {id id' : UInt16} {ev : DemuxEvent}
    {out : List (Reply Nat)} (hs : s.step rs sc (.demux id' ev) = some (s', out))
    (hnone : (s.stream id).current = none) :
    (s'.stream id).current = none := by
  simp only [Server.step, Option.map_eq_some_iff, Prod.exists, Prod.mk.injEq] at hs
  obtain ⟨loop, st, _, hev, rfl, rfl⟩ := hs
  rw [Server.set_stream]
  split
  · rename_i hid
    subst hid
    have hh := Stream.demux_handled hev
    generalize s.loop = loop₀ at hh
    cases hh with
    | delete => rfl
    | reack | handle | finish => exact hnone
  · exact hnone

/-- Both demultiplexers get back to their reads. -/
theorem Pair.quiesce (free : Prop) :
    Attains (pair rs cc sc) (Helps c id) Pair.Staffed (Pair.Open c dest id free)
      (fun s => (Pair.Open c dest id free s ∧ s.server.loop = .read) ∧ s.client.loop = .read) := by
  have hstable : Stable (pair rs cc sc) (Helps c id) Pair.Staffed := fun s e s' h _ hs => h.step hs
  apply Attains.trans
  · refine Attains.of_rank_until (Q := fun s => s.server.loop = .read) hstable
      (fun s => s.server.desk.left) ?_
    intro s hi hopen hread
    obtain ⟨id', ev, server, out, hs, hlt⟩ := @Server.desk_progress Nat rs sc _ hi.server hread
    refine ⟨.server (.demux id' ev),
      { s with server, toClient := s.toClient ++ out.flatMap Reply.message }, trivial,
      ?_, ⟨hopen.awaits, fun hfree => Server.demux_current hs (hopen.none hfree)⟩, hlt⟩
    simp [pair, Pair.step, Pair.serverStep, hs]
  · refine Attains.of_rank_until (Q := fun s => s.client.loop = .read) hstable
      (fun s => s.client.desk.left) ?_
    rintro s hi ⟨hopen, hserver⟩ hread
    obtain ⟨ev, client, out, hs, hlt⟩ := @Client.desk_progress _ rs cc _ hi.client hread
    obtain ⟨hawaits, rfl⟩ := hopen.awaits.demux hs
    refine ⟨.client (.demux ev), { s with client }, trivial, ?_, ⟨⟨hawaits, hopen.none⟩, hserver⟩,
      hlt⟩
    simp [pair, Pair.step, Pair.clientStep, hs]

/-- The answer is on its way to the client, and the server has a session for the connection. -/
structure Pair.Answered (c : Nat) (dest : Bytes) (id : UInt16) (fresh : Served Nat → Prop)
    (s : Pair) : Prop where
  awaits : s.client.Awaits c dest id
  reading : s.client.loop = .read
  answer : ∃ (source : Option Answer) (a : Bytes), (source, a) ∈ s.toClient ∧
    marshal { type := .connAck, streamID := id } = .ok a
  session : ∃ (i : Nat) (o : Served Nat), (s.server.stream id).current = some i ∧
    (s.server.stream id).served[i]? = some o ∧ fresh o

/-- The CONNECT of a connection to `dest`, its `connectPacket`. -/
def connectOf (id : UInt16) (dest : Bytes) : Packet :=
  { type := .connect, streamID := id, addr := dest }

theorem eraseIdx_concat {α : Type} (l : List α) (x : α) : (l ++ [x]).eraseIdx l.length = l := by
  rw [List.eraseIdx_append_of_length_le (Nat.le_refl _)]
  simp

theorem Pair.arrives (h : s.client.Awaits c dest id) (hm : marshal (connectOf id dest) = .ok buf)
    (hloop : s.server.loop = .read) :
    Reach { pair rs cc sc with init := s } (Helps c id)
      { s with server := s.server.set id ((s.server.stream id).lookup c (connectOf id dest)).1
                           ((s.server.stream id).lookup c (connectOf id dest)).2 } := by
  have hread : readUDP buf = .ok (connectOf id dest) := readUDP_addr (Or.inl rfl) hm
  have hsend : (pair rs cc sc).step s (.client (.conn c .send)) =
      some { s with toServer := s.toServer ++ [(c, buf)] } := by
    rw [connectOf] at hm
    simp [pair, Pair.step, Pair.clientStep, Client.step, h.conn, Client.connStep,
      Conn.connectPacket, hm]
  have harrive : (pair rs cc sc).step { s with toServer := s.toServer ++ [(c, buf)] }
      (.deliverServer s.toServer.length false) =
      some { s with server := s.server.set id ((s.server.stream id).lookup c (connectOf id dest)).1
                                ((s.server.stream id).lookup c (connectOf id dest)).2 } := by
    simp [pair, Pair.step, Pair.serverStep, Server.step, hloop, hread, connectOf, eraseIdx_concat]
  have hsent :=
    Reach.step (m := { pair rs cc sc with init := s }) (e := PairEvent.client (.conn c .send)) .init
    (show Helps c id s _ from ⟨rfl, Or.inl rfl⟩) hsend
  exact hsent.step (e := PairEvent.deliverServer s.toServer.length false) trivial harrive

theorem marshal_connAck (hm : marshal (connectOf id dest) = .ok buf) :
    ∃ a, marshal { type := .connAck, streamID := id } = .ok a := by
  unfold marshal at hm ⊢
  split at hm
  · cases hm
  · rename_i hid
    have hid' : ¬ id > 0x0FFF := hid
    rw [if_neg hid']
    exact ⟨_, rfl⟩

/-- A server that has a session under the StreamID answers from it. -/
theorem Pair.answered_again (h : s.client.Awaits c dest id) (hclient : s.client.loop = .read)
    (hm : marshal (connectOf id dest) = .ok buf) (hserver : s.server.loop = .read) {i : Nat}
    {o : Served Nat} (hcur : (s.server.stream id).current = some i)
    (ho : (s.server.stream id).served[i]? = some o) :
    ∃ s', Reach { pair rs cc sc with init := s } (Helps c id) s' ∧ s'.Answered c dest id
    (· = o) := by
  obtain ⟨a, ha⟩ := marshal_connAck hm
  have hr := @Pair.arrives rs cc sc c dest buf id s h hm hserver
  have hlookup : (s.server.stream id).lookup c (connectOf id dest) =
      (.found (connectOf id dest) c i, s.server.stream id) := by simp [Stream.lookup, hcur]
  rw [hlookup] at hr
  have hanswer : (pair rs cc sc).step
      { s with server := s.server.set id (.found (connectOf id dest) c i) (s.server.stream id) }
      (.server (.demux id .dispatch)) =
      some { s with
        server := (s.server.set id (.found (connectOf id dest) c i) (s.server.stream id)).set id
          .read (s.server.stream id)
        toClient := s.toClient ++ [(some ⟨o.peer, o.dest⟩, a)] } := by
    simp [pair, Pair.step, Pair.serverStep, Server.step, Server.set, Stream.demux, ho, connectOf,
      Reply.message, Reply.datagram, Reply.answer, sendPacketDirect, ha]
  have hsent := hr.step (e := PairEvent.server (.demux id .dispatch)) trivial hanswer
  refine ⟨_, hsent, h, hclient, ⟨some ⟨o.peer, o.dest⟩, a, by simp, ha⟩, i, o, ?_, ?_, rfl⟩
  · simpa [Server.set] using hcur
  · simpa [Server.set] using ho

/-- The stream with one more `handleConnect`. -/
def Stream.connecting (st : Stream Nat) (x : Connecting Nat) : Stream Nat :=
  { st with connects := st.connects ++ [x] }

/-- The way of the last `handleConnect` of the list: dialled, acknowledged, registered. -/
theorem Stream.connecting_steps {st : Stream Nat} (rAddr : Nat) (hcur : st.current = none) :
    (st.connecting ⟨dest, rAddr, .dial⟩).step rs sc id (.dialOk st.connects.length) =
        some (st.connecting ⟨dest, rAddr, .ack⟩, []) ∧
      (st.connecting ⟨dest, rAddr, .ack⟩).step rs sc id (.sendAck st.connects.length) =
        some (st.connecting ⟨dest, rAddr, .register⟩, [.ack rAddr id rAddr dest]) ∧
      (st.connecting ⟨dest, rAddr, .register⟩).step rs sc id (.register st.connects.length) =
        some ({ current := some st.served.length
                served := st.served ++ [⟨rAddr, dest, newSession (sc.session id)⟩]
                connects := st.connects }, []) := by
  constructor
  · simp [Stream.step, Stream.connecting]
  constructor
  · simp [Stream.step, Stream.connecting]
  · simp [Stream.step, Stream.connecting, Stream.closeCurrent, hcur, eraseIdx_concat]

theorem Pair.reach_stream {sent : List (Option Answer × Bytes)} {st st' : Stream Nat}
    {e : StreamEvent} {out : List (Reply Nat)}
    (hr : Reach { pair rs cc sc with init := s } (Helps c id)
      { s with server := s.server.set id .read st, toClient := sent })
    (he : ∃ k, e = .dialOk k ∨ e = .sendAck k ∨ e = .register k)
    (hst : st.step rs sc id e = some (st', out)) :
    Reach { pair rs cc sc with init := s } (Helps c id)
      { s with
        server := s.server.set id .read st'
        toClient := sent ++ out.flatMap Reply.message } := by
  apply hr.step (e := PairEvent.server (.stream id e)) ⟨rfl, he⟩
  simp [pair, Pair.step, Pair.serverStep, Server.step, Server.set, hst]

/-- A server that has none dials, answers and registers a session. -/
theorem Pair.answered_new (h : s.client.Awaits c dest id) (hclient : s.client.loop = .read)
    (hm : marshal (connectOf id dest) = .ok buf) (hserver : s.server.loop = .read)
    (hcur : (s.server.stream id).current = none) :
    ∃ s', Reach { pair rs cc sc with init := s } (Helps c id) s' ∧
      s'.Answered c dest id (· = ⟨c, dest, newSession (sc.session id)⟩) := by
  obtain ⟨a, ha⟩ := marshal_connAck hm
  have hr := @Pair.arrives rs cc sc c dest buf id s h hm hserver
  have hlookup : (s.server.stream id).lookup c (connectOf id dest) =
      (.read, (s.server.stream id).connecting ⟨dest, c, .dial⟩) := by
    simp [Stream.lookup, hcur, connectOf, Stream.connecting]
  rw [hlookup] at hr
  obtain ⟨hdial, hack, hregister⟩ := @Stream.connecting_steps rs sc dest id _ c hcur
  have hdialled := Pair.reach_stream hr ⟨_, Or.inl rfl⟩ hdial
  have hacked := Pair.reach_stream hdialled ⟨_, Or.inr (Or.inl rfl)⟩ hack
  have hregistered := Pair.reach_stream hacked ⟨_, Or.inr (Or.inr rfl)⟩ hregister
  refine ⟨_, hregistered, h, hclient, ⟨some ⟨c, dest⟩, a, ?_, ha⟩,
    (s.server.stream id).served.length, _, ?_, ?_, rfl⟩
  · simp [Reply.message, Reply.datagram, Reply.answer, sendPacketDirect, ha]
  · simp [Server.set]
  · simp [Server.set]

theorem Pair.reach_conn {sent : List (Option Answer × Bytes)}
    {client client' : Client (Option Answer)} {e : ConnEvent}
    (hr : Reach { pair rs cc sc with init := s } (Helps c id) { s with client, toClient := sent })
    (he : e = .send ∨ e = .take ∨ e = .register)
    (hs : client.step rs cc (.conn c e) = some (client', [])) :
    Reach { pair rs cc sc with init := s } (Helps c id)
    { s with client := client', toClient := sent } := by
  apply hr.step (e := PairEvent.client (.conn c e)) ⟨rfl, he⟩
  simp [pair, Pair.step, Pair.clientStep, hs]

/-- With a CONN_ACK in its channel, `handleTCPConn` makes the session and puts it into the table. -/
theorem Client.take_register {client : Client (Option Answer)} {source : Option Answer}
    (hm : marshal (connectOf id dest) = .ok buf)
    (hconn : client.conns[c]? = some ⟨dest, id, .waiting (some (.ok source))⟩) :
    ∃ taken registered, client.step rs cc (.conn c .take) = some (taken, []) ∧
      taken.step rs cc (.conn c .register) = some (registered, []) ∧
      registered.conns[c]? = some ⟨dest, id, .established (newSession (cc.session id))⟩ ∧
      registered.sessions.lookup id = some c := by
  let taken := { client with conns := Client.modifyStage client.conns c fun _ => .succeeded source }
  have hm' : marshal
      (⟨dest, id, .waiting (some (.ok source))⟩ : Conn (Option Answer)).connectPacket = .ok buf :=
    hm
  have htake : client.step rs cc (.conn c .take) = some (taken, []) := by
    simp only [Client.step, hconn, Client.connStep, hm', taken]
  have hsucceeded : taken.conns[c]? = some ⟨dest, id, .succeeded source⟩ := by
    simp [taken, Client.getElem?_modifyStage, hconn]
  have hregister : taken.step rs cc (.conn c .register) =
      some ({ taken with
        conns := Client.modifyStage taken.conns c fun _ => .established (newSession (cc.session id))
        sessions := taken.sessions.insert id c }, []) := by
    simp only [Client.step, hsucceeded, Client.connStep, if_true]
  refine ⟨taken, _, htake, hregister, ?_, ?_⟩
  · simp [Client.getElem?_modifyStage, hsucceeded]
  · exact AList.lookup_insert _

/-- The CONN_ACK arrives, and the connection gets its session. -/
theorem Pair.established {fresh : Served Nat → Prop} (h : s.Answered c dest id fresh)
    (hm : marshal (connectOf id dest) = .ok buf) :
    ∃ s', Reach { pair rs cc sc with init := s } (Helps c id) s' ∧
      s'.client.conns[c]? = some ⟨dest, id, .established (newSession (cc.session id))⟩ ∧
      s'.client.sessions.lookup id = some c ∧ s'.server = s.server := by
  obtain ⟨source, a, hmem, ha⟩ := h.answer
  obtain ⟨i, hi⟩ := List.getElem?_of_mem hmem
  have hread : readUDP a = .ok { type := .connAck, streamID := id } := by
    rw [readUDP_short ha (by simp), unmarshal_marshal_base (Or.inl rfl) ha]
  -- the channel holds the answer after the delivery
  let client := s.client.lookup source { type := .connAck, streamID := id }
  have hanswered : client.conns[c]? = some ⟨dest, id, .waiting (some (.ok source))⟩ := by
    simp [client, Client.lookup, h.awaits.pending, Client.getElem?_modifyStage, h.awaits.conn,
      ConnStage.answer]
  have hdeliver : (pair rs cc sc).step s (.deliverClient i false) =
      some { s with client, toClient := s.toClient.eraseIdx i } := by
    simp [pair, Pair.step, Pair.clientStep, Client.step, hi, h.reading, hread, client]
  obtain ⟨taken, registered, htake, hregister, hconn, hsession⟩ :=
    @Client.take_register rs cc c _ _ _ _ _ hm hanswered
  have hdelivered :=
    Reach.step (m := { pair rs cc sc with init := s }) (e := PairEvent.deliverClient i false) .init
    (show Helps c id s _ from trivial) hdeliver
  have htaken := Pair.reach_conn hdelivered (Or.inr (Or.inl rfl)) htake
  have hregistered := Pair.reach_conn htaken (Or.inr (Or.inr rfl)) hregister
  exact ⟨_, hregistered, hconn, hsession, rfl⟩

/-- The CONNECT is answered, from a session of the table or from a new one. -/
theorem Pair.answered (hi : s.Staffed) {free : Prop} (h : s.Open c dest id free)
    (hclient : s.client.loop = .read) (hm : marshal (connectOf id dest) = .ok buf)
    (hserver : s.server.loop = .read) :
    ∃ s', Reach { pair rs cc sc with init := s } (Helps c id) s' ∧
      s'.Answered c dest id fun o => free → o = ⟨c, dest, newSession (sc.session id)⟩ := by
  cases hcur : (s.server.stream id).current with
  | none =>
    obtain ⟨s', hr, hs'⟩ := @Pair.answered_new rs cc sc _ _ _ _ _ h.awaits hclient hm hserver hcur
    obtain ⟨i, o, hcur', ho, hfresh⟩ := hs'.session
    exact ⟨s', hr, hs'.awaits, hs'.reading, hs'.answer, i, o, hcur', ho, fun _ => hfresh⟩
  | some i =>
    have ho := List.getElem?_eq_getElem (hi.serverListed id i hcur)
    obtain ⟨s', hr, hs'⟩ :=
      @Pair.answered_again rs cc sc _ _ _ _ _ h.awaits hclient hm hserver _ _ hcur ho
    obtain ⟨i', o', hcur', ho', -⟩ := hs'.session
    refine ⟨s', hr, hs'.awaits, hs'.reading, hs'.answer, i', o', hcur', ho', fun hfree => ?_⟩
    rw [h.none hfree] at hcur
    cases hcur

end Establish

/-- **A handshake can always be completed.** In every reachable state, whatever was lost, duplicated
or reordered before and whatever the demultiplexers are busy with: a connection whose channel is in
`pendingConnects` can get its session by steps of its own, of the demultiplexers and of
`handleConnect` for its StreamID, with nothing lost on the way. Both tables then have a session
under its StreamID. If the server had none at the start, its session is a new one that was dialled
for this connection and to its destination. -/
theorem handshake_completable (rs : ReedSolomon) (cc sc : PepConfig) {ok : Pair → PairEvent → Prop}
    {s : Pair} (hr : Reach (pair rs cc sc) ok s) {id : UInt16} {c : Nat}
    {conn : Conn (Option Answer)} {buf : Bytes}
    (hpending : s.client.pendingConnects.lookup id = some c)
    (hconn : s.client.conns[c]? = some conn) (hm : marshal conn.connectPacket = .ok buf) :
    ∃ s', Reach { pair rs cc sc with init := s } (Helps c id) s' ∧
      s'.client.conns[c]? = some ⟨conn.dest, id, .established (newSession (cc.session id))⟩ ∧
      s'.client.sessions.lookup id = some c ∧
      ∃ i o, (s'.server.stream id).current = some i ∧ (s'.server.stream id).served[i]? = some o ∧
        ((s.server.stream id).current = none → o = ⟨c, conn.dest, newSession (sc.session id)⟩) := by
  have hi := staffed_of_reach hr
  have hwaits : s.client.Awaits c conn.dest id ∧ conn.streamID = id := by
    obtain ⟨⟨dest, id', stage⟩, hconn', rfl, rfl⟩ := hi.pending id c hpending
    obtain rfl := Option.some.inj (hconn.symm.trans hconn')
    exact ⟨⟨hconn, hpending⟩, rfl⟩
  have hm' : marshal (connectOf id conn.dest) = .ok buf := by
    rw [← hwaits.2]
    exact hm
  have hopen : s.Open c conn.dest id ((s.server.stream id).current = none) := ⟨hwaits.1, fun h => h⟩
  obtain ⟨s₁, hr₁, hi₁, ⟨hopen₁, hserver⟩, hclient⟩ :=
    @Pair.quiesce rs cc sc c conn.dest id _ s hi hopen
  obtain ⟨s₂, hr₂, hanswered⟩ := @Pair.answered rs cc sc _ _ _ _ _ hi₁ _ hopen₁ hclient hm' hserver
  obtain ⟨s₃, hr₃, hestablished, hsession, hsame⟩ :=
    @Pair.established rs cc sc _ _ _ _ _ _ hanswered hm'
  refine ⟨s₃, Reach.trans (Reach.trans hr₁ hr₂) hr₃, hestablished, hsession, ?_⟩
  rw [hsame]
  exact hanswered.session

/-- A CONNECT was lost. -/
theorem handshake_completable_small :
    ∃ s s', Reach (pair reedSolomonTwoOne smallPep smallPep) (fun _ _ => True) s ∧
      Reach { pair reedSolomonTwoOne smallPep smallPep with init := s } (Helps 0 1) s' ∧
      s'.client.sessions.lookup 1 = some 0 ∧
      ∃ i : Nat, (s'.server.stream 1).served[i]? = some ⟨0, [65],
        newSession (smallPep.session 1)⟩ := by
  obtain ⟨s, hr, hconns, hpending, hfree⟩ :
      ∃ s, Reach (pair reedSolomonTwoOne smallPep smallPep) (fun _ _ => True) s ∧
        s.client.requests = [([65], 1)] ∧ s.client.pendingConnects.lookup 1 = some 0 ∧
        (s.server.stream 1).current = none :=
    Reach.exists_of_runOk _
      [.client (.accept [65]), .client (.conn 0 .openChannel), .client (.conn 0 .send),
        .dropServer 0]
      (by decide +kernel)
  obtain ⟨⟨dest, id, stage⟩, hconn, heq⟩ := List.map_eq_singleton_iff.mp hconns
  simp only [Prod.mk.injEq] at heq
  obtain ⟨rfl, rfl⟩ := heq
  have hm : marshal (⟨[65], 1, stage⟩ : Conn (Option Answer)).connectPacket =
      .ok (connectDatagram 1 65) := by
    have h : marshal (connectOf 1 [65]) = .ok (connectDatagram 1 65) := by decide +kernel
    exact h
  obtain ⟨s', hr', -, hsession, i, o, -, ho, hfresh⟩ :=
    handshake_completable _ _ _ hr hpending (by rw [hconn]; rfl) hm
  exact ⟨s, s', hr, hr', hsession, i, by rw [ho, hfresh hfree]⟩

end TcpPep
