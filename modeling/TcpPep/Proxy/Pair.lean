import TcpPep.Proxy.Client
import TcpPep.Proxy.History

/-!
One client and one server, over a network that drops, duplicates, delays and
reorders.

* `Session.step_read`: what the sessions send is no part of a handshake;
* `Reply.read_ack`: only the CONN_ACKs of the server are read as such;
* `Client.Moved.sound`, `Stream.Sound.step`: the sessions of both ends are sound senders;
* `Pair.Loses`: a datagram that arrives for the last time is one that arrives and is then lost.
-/

namespace TcpPep

open Protocol Fec ErasureCode Events FiniteMap

/-- The session that a CONN_ACK speaks for. -/
structure Answer where
  /-- the connection whose CONNECT it was dialled for -/
  peer : Nat
  /-- the target it was dialled to -/
  dest : Bytes
  deriving DecidableEq

/-- A client, a server and the datagrams on their way. A datagram to the server comes
with the number of the connection that sent it, one to the client with the session that
a CONN_ACK speaks for; both are for the record only. -/
structure Pair where
  client : Client (Option Answer) := {}
  server : Server Nat := {}
  toServer : List (Nat × Bytes) := []
  toClient : List (Option Answer × Bytes) := []

inductive PairEvent where
  | client (e : ClientEvent (Option Answer))
  | server (e : ServerEvent Nat)
  /-- datagram `i` arrives at the server, and may arrive again -/
  | deliverServer (i : Nat) (again : Bool)
  | deliverClient (i : Nat) (again : Bool)
  /-- datagram `i` to the server is lost -/
  | dropServer (i : Nat)
  | dropClient (i : Nat)
  deriving DecidableEq

def Reply.answer : Reply Nat → Option Answer
  | .ack _ _ peer dest => some ⟨peer, dest⟩
  | .err _ _ _ => none
  | .session _ _ => none

def Reply.message (r : Reply Nat) : List (Option Answer × Bytes) := r.datagram.map fun a =>
    (r.answer, a)

namespace Pair

variable (rs : ReedSolomon) (cc sc : PepConfig)

def clientStep (s : Pair) (e : ClientEvent (Option Answer)) : Option Pair :=
  (s.client.step rs cc e).map fun r => { s with client := r.1, toServer := s.toServer ++ r.2 }

def serverStep (s : Pair) (e : ServerEvent Nat) : Option Pair :=
  (s.server.step rs sc e).map fun r =>
    { s with server := r.1, toClient := s.toClient ++ r.2.flatMap Reply.message }

def step (s : Pair) : PairEvent → Option Pair
  | .client e =>
    match e with
    | .recv _ _ => none
    | e => s.clientStep rs cc e
  | .server e =>
    match e with
    | .recv _ _ => none
    | e => s.serverStep rs sc e
  | .deliverServer i again =>
    match s.toServer[i]? with
    | some m =>
      (if again then s else { s with toServer := s.toServer.eraseIdx i }).serverStep rs sc
      (.recv m.1 m.2)
    | none => none
  | .deliverClient i again =>
    match s.toClient[i]? with
    | some m =>
      (if again then s else { s with toClient := s.toClient.eraseIdx i }).clientStep rs cc
      (.recv m.1 m.2)
    | none => none
  | .dropServer i =>
    if i < s.toServer.length then some { s with toServer := s.toServer.eraseIdx i } else none
  | .dropClient i =>
    if i < s.toClient.length then some { s with toClient := s.toClient.eraseIdx i } else none

end Pair

/-- The machine of a client with parameters `cc` and a server with parameters `sc`. -/
def pair (rs : ReedSolomon) (cc sc : PepConfig) : Machine Pair PairEvent where
  init := {}
  step := Pair.step rs cc sc

/-! ## What is read from the datagrams -/

/-- The Reed-Solomon library works for the sessions of a PEP. -/
def PepConfig.Works (rs : ReedSolomon) (pc : PepConfig) : Prop :=
  ∃ n, ∃ code : Code UInt8 pc.fecK n, Implements rs code ∧ ∀ id, (pc.session id).Valid n

theorem readUDP_addr {t : PacketType} {id : UInt16} {addr buf : Bytes}
    (ht : t = .connect ∨ t = .connErr)
    (hm : marshal { type := t, streamID := id, addr } = .ok buf) :
    readUDP buf = .ok { type := t, streamID := id, addr } := by
  obtain ⟨h, hlen⟩ := unmarshal_marshal_addr ht hm
  rw [readUDP, List.take_of_length_le (Nat.le_trans hlen (by decide)), h]

/-- A session sends packets with its own StreamID, and none of a handshake. -/
theorem Session.step_read {rs : ReedSolomon} {pc : PepConfig} (hpc : pc.Works rs) {id : UInt16}
    {s s' : Session} {e : SessionEvent} {sent : List Bytes} (h : s.TxInv rs (pc.session id))
    (hs : s.step rs (pc.session id) e = some (s', sent)) {a : Bytes} (ha : a ∈ sent) :
    ∃ p, readUDP a = .ok p ∧ p.streamID = id ∧ p.type ≠ .connect ∧ p.type ≠ .connAck := by
  obtain ⟨n, code, himpl, hv⟩ := hpc
  obtain ⟨htx, -, hsent⟩ := Session.step_tx himpl (hv id) hs h
  obtain ⟨p, hread, hid, hkind⟩ := (hsent a ha).read himpl (hv id) htx.inv
  refine ⟨p, hread, hid, ?_⟩
  rcases hkind with ⟨b, blk, -, hp⟩ | ⟨ht, -⟩ | ⟨ht, -⟩ | ht | ht
  · obtain ⟨parityShards, i, -, -, -, hpkt⟩ := mem_packetsAt hp
    rw [hpkt]
    simp
  all_goals simp [ht]

/-- Only the reply of that name is read as a CONN_ACK. -/
theorem Reply.read_ack {r : Reply Nat}
    (hsession : ∀ rAddr a, r = .session rAddr a → ∀ p, readUDP a = .ok p → p.type ≠ .connAck)
    {m : Option Answer × Bytes} (hm : m ∈ r.message) {p : Packet} (hread : readUDP m.2 = .ok p)
    (ht : p.type = .connAck) : ∃ rAddr peer dest, r = .ack rAddr p.streamID peer dest ∧
    m.1 = some ⟨peer, dest⟩ := by
  obtain ⟨a, ha, rfl⟩ := List.mem_map.mp hm
  cases r with
  | ack rAddr id peer dest =>
    simp only [datagram, sendPacketDirect] at ha
    split at ha
    · rename_i buf hmar
      rw [List.mem_singleton.mp ha, readUDP_short hmar (by simp),
        unmarshal_marshal_base (by simp) hmar] at hread
      cases hread
      exact ⟨rAddr, peer, dest, rfl, rfl⟩
    · cases ha
  | err rAddr id msg =>
    simp only [datagram, sendPacketDirect] at ha
    split at ha
    · rename_i buf hmar
      rw [List.mem_singleton.mp ha, readUDP_addr (by simp) hmar] at hread
      cases hread
      cases ht
    · cases ha
  | session rAddr a' =>
    rw [List.mem_singleton.mp ha] at hread
    exact absurd ht (hsession rAddr a' rfl p hread)

/-! ## The sessions of both ends -/

/-- A session of the client is a sound sender. -/
def Conn.Sound {τ : Type} (rs : ReedSolomon) (pc : PepConfig) (conn : Conn τ) : Prop :=
  ∀ session, conn.stage = .established session → session.TxInv rs (pc.session conn.streamID)

/-- The sessions of a StreamID are sound senders, for connections below `b`. -/
structure Stream.Sound (rs : ReedSolomon) (pc : PepConfig) (b : Nat) (id : UInt16)
    (st : Stream Nat) : Prop where
  served : ∀ (i : Nat) (o : Served Nat), st.served[i]? = some o →
    o.session.TxInv rs (pc.session id) ∧ o.peer < b
  connects : ∀ k ∈ st.connects, k.clientAddr < b

section Sound

variable {rs : ReedSolomon} {pc : PepConfig}

theorem Client.Moved.sound {τ : Type} {s s' : Client τ} {e : ClientEvent τ}
    {out : List (Nat × Bytes)} (hpc : pc.Works rs) (hm : Client.Moved rs pc s e s' out)
    (h : ∀ conn ∈ s.conns, conn.Sound rs pc) :
    ∀ conn ∈ s'.conns, conn.Sound rs pc := by
  obtain ⟨n, code, himpl, hv⟩ := hpc
  cases hm with
  | exhausted | send | ignore | found | delete => exact h
  | accept dest lastID streamID hsearch =>
    intro conn hconn
    rcases List.mem_append.mp hconn with hconn | hconn
    · exact h conn hconn
    · rw [List.mem_singleton.mp hconn]
      intro session hsession
      cases hsession
  | openChannel | take | refused | abandon =>
    refine Client.forall_modifyStage (fun conn _ _ session hsession => ?_) h
    cases hsession
  | register c conn source hc hstage =>
    refine Client.forall_modifyStage (fun conn₁ hc₁ _ session hsession => ?_) h
    obtain rfl := Option.some.inj (hc.symm.trans hc₁)
    cases hsession
    exact Session.newSession_txInv rs (hv _)
  | act c conn session e session' sent hc hstage hs =>
    refine Client.forall_modifyStage (fun conn₁ hc₁ hsound session₁ hsession => ?_) h
    obtain rfl := Option.some.inj (hc.symm.trans hc₁)
    cases hsession
    exact (Session.step_tx himpl (hv _) hs (hsound session hstage)).1
  | answer =>
    exact Client.forall_modifyStage (fun conn _ hsound session hs =>
      hsound session (ConnStage.of_answer hs)) h
  | handle c conn session p loop hc hstage =>
    refine Client.forall_modifyStage (fun conn₁ hc₁ hsound session₁ hsession => ?_) h
    obtain rfl := Option.some.inj (hc.symm.trans hc₁)
    cases hsession
    exact (Session.handle_tx (hsound session hstage) p).1
  | finish =>
    refine Client.forall_modifyStage (fun conn _ hsound session hs => ?_) h
    obtain ⟨session₀, hstage, rfl⟩ := ConnStage.of_mapSession hs
    exact (Session.finishHandler_tx (hsound session₀ hstage)).1
  | cleanup =>
    refine Client.forall_modifyStage (fun conn _ hsound session hs => ?_) h
    obtain ⟨session₀, hstage, rfl⟩ := ConnStage.of_mapSession hs
    exact (hsound session₀ hstage).close

theorem Stream.Sound.step (hpc : pc.Works rs) {s s' : Server Nat} {e : ServerEvent Nat}
    {out : List (Reply Nat)} {b : Nat} (hs : s.step rs pc e = some (s', out))
    (hrecv : ∀ rAddr a, e = .recv rAddr a → rAddr < b) (h : ∀ id, (s.stream id).Sound rs pc b id)
    (id : UInt16) : (s'.stream id).Sound rs pc b id := by
  obtain ⟨n, code, himpl, hv⟩ := hpc
  refine Server.step_stream (P := Stream.Sound rs pc b) hs ?_ ?_ ?_ h id
  · intro rAddr a p he hread hst
    unfold Stream.lookup
    split
    · exact hst
    · split
      · refine ⟨hst.served, fun k hk => ?_⟩
        rcases List.mem_append.mp hk with hk | hk
        · exact hst.connects k hk
        · rw [List.mem_singleton.mp hk]
          exact hrecv rAddr a he
      · exact hst
  · intro id loop loop' st st' out hh hst
    refine ⟨hh.served ?_ ?_ hst.served, hh.connects ▸ hst.connects⟩
    · exact fun _ o p ho => ⟨(Session.handle_tx ho.1 p).1, ho.2⟩
    · exact fun _ o ho => ⟨(Session.finishHandler_tx ho.1).1, ho.2⟩
  · intro id ev st st' out hm hst
    refine ⟨hm.served ?_ ?_ ?_ hst.served, fun k hk => ?_⟩
    · exact fun _ o ho => ⟨ho.1.close, ho.2⟩
    · exact fun _ o e session sent hs _ ho => ⟨(Session.step_tx himpl (hv id) hs ho.1).1, ho.2⟩
    · exact fun k hk => ⟨Session.newSession_txInv rs (hv id), hst.connects k hk⟩
    · obtain ⟨k', hk', -, haddr⟩ := hm.connects hk
      rw [← haddr]
      exact hst.connects k' hk'

/-- A session of the server sends no CONN_ACK. -/
theorem Stream.Sound.replies (hpc : pc.Works rs) {s s' : Server Nat} {e : ServerEvent Nat}
    {out : List (Reply Nat)} {b : Nat} (hs : s.step rs pc e = some (s', out))
    (h : ∀ id, (s.stream id).Sound rs pc b id) {rAddr : Nat} {a : Bytes}
    (hr : .session rAddr a ∈ out) {p : Packet} (hread : readUDP a = .ok p) : p.type ≠ .connAck := by
  rcases Server.step_cases hs with ⟨_, a', err, rfl, -, -, rfl, rfl⟩ |
    ⟨_, a', p', rfl, -, -, rfl, rfl⟩ |
    ⟨id, ev, loop, st, rfl, hev, rfl⟩ | ⟨id, ev, st, rfl, hev, rfl⟩
  · cases hr
  · cases hr
  · have hh := Stream.demux_handled hev
    generalize s.loop = loop₀ at hh
    cases hh with
    | reack => cases List.mem_singleton.mp hr
    | handle | finish | delete => cases hr
  · cases Stream.step_moved hev with
    | dialFail | sendAck => cases List.mem_singleton.mp hr
    | dialOk | register | cleanup => cases hr
    | act i e o session sent ho hown hstep =>
      obtain ⟨a', ha, heq⟩ := List.mem_map.mp hr
      cases heq
      obtain ⟨q, hq, -, -, hne⟩ := Session.step_read hpc ((h id).served i o ho).1 hstep ha
      cases hread.symm.trans hq
      exact hne

end Sound

/-! ## Losses -/

/-- `s'` is `s` with some datagrams lost. -/
structure Pair.Loses (s s' : Pair) : Prop where
  client : s'.client = s.client
  server : s'.server = s.server
  toServer : ∀ m ∈ s'.toServer, m ∈ s.toServer
  toClient : ∀ m ∈ s'.toClient, m ∈ s.toClient

namespace Pair.Loses

variable {rs : ReedSolomon} {pc : PepConfig} {s s₀ s' : Pair}

theorem refl (s : Pair) : s.Loses s := ⟨rfl, rfl, fun _ hm => hm, fun _ hm => hm⟩

theorem eraseServer (s : Pair) (i : Nat) : s.Loses { s with toServer := s.toServer.eraseIdx i } :=
  ⟨rfl, rfl, fun _ hm => List.mem_of_mem_eraseIdx hm, fun _ hm => hm⟩

theorem eraseClient (s : Pair) (i : Nat) : s.Loses { s with toClient := s.toClient.eraseIdx i } :=
  ⟨rfl, rfl, fun _ hm => hm, fun _ hm => List.mem_of_mem_eraseIdx hm⟩

/-- A datagram that arrives for the last time may as well be lost after its arrival. -/
theorem serverStep (h : s.Loses s₀) {e : ServerEvent Nat} (hs : s₀.serverStep rs pc e = some s') :
    ∃ s₁, s.serverStep rs pc e = some s₁ ∧ s₁.Loses s' := by
  simp only [Pair.serverStep, Option.map_eq_some_iff, Prod.exists] at hs
  obtain ⟨server, out, hstep, rfl⟩ := hs
  rw [h.server] at hstep
  refine ⟨{ s with server, toClient := s.toClient ++ out.flatMap Reply.message },
    by rw [Pair.serverStep, hstep]; rfl, ⟨h.client, rfl, h.toServer, fun m hm => ?_⟩⟩
  rcases List.mem_append.mp hm with hm | hm
  · exact List.mem_append_left _ (h.toClient m hm)
  · exact List.mem_append_right _ hm

theorem clientStep (h : s.Loses s₀) {e : ClientEvent (Option Answer)}
    (hs : s₀.clientStep rs pc e = some s') : ∃ s₁, s.clientStep rs pc e = some s₁ ∧
    s₁.Loses s' := by
  simp only [Pair.clientStep, Option.map_eq_some_iff, Prod.exists] at hs
  obtain ⟨client, out, hstep, rfl⟩ := hs
  rw [h.client] at hstep
  refine ⟨{ s with client, toServer := s.toServer ++ out }, by rw [Pair.clientStep, hstep]; rfl,
    ⟨rfl, h.server, fun m hm => ?_, h.toClient⟩⟩
  rcases List.mem_append.mp hm with hm | hm
  · exact List.mem_append_left _ (h.toServer m hm)
  · exact List.mem_append_right _ hm

end Pair.Loses

end TcpPep
