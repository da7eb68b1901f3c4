import TcpPep.Proxy.Relay
import TcpPep.Proxy.StreamIds

/-!
The other direction: from the targets to the connections.

A datagram of a server session says to the client no more than its StreamID.
When the server has made one session for a connection, and the client hands it
the DATA packets of that session only, it writes what the session has read.

* `FromServer`: where a DATA packet on its way to the client comes from;
* `Client.Tracks`: every session of the client follows the session made for it;
* `relay_download`: what is written to a connection was read, in this order, from
  the target it had asked for.
-/

namespace TcpPep

open Protocol Fec ErasureCode Events FiniteMap

/-! ## What the sessions for a connection have sent -/

/-- The blocks of the session made for connection `c`. -/
def Stream.history (st : Stream Nat) (c : Nat) : List Block :=
  ((st.served.find? fun o => o.peer = c).map fun o => o.session.tx.sent).getD []

/-- No two sessions were made for one connection. -/
def Stream.OnePerPeer (st : Stream Nat) : Prop :=
  ∀ (i j : Nat) (o o' : Served Nat), st.served[i]? = some o → st.served[j]? = some o' →
    o.peer = o'.peer → i = j

/-- The sessions of a StreamID go on with what they have sent. -/
abbrev Stream.Grows (st st' : Stream Nat) : Prop :=
  st.Preserves (fun o o' => o'.peer = o.peer ∧ o.session.tx.sent <+: o'.session.tx.sent) st'

section Stream

variable {rs : ReedSolomon} {sc : PepConfig} {b : Nat} {id : UInt16} {st st' : Stream Nat}
  {out : List (Reply Nat)}

theorem Stream.history_eq (h : st.OnePerPeer) {i : Nat} {o : Served Nat}
    (ho : st.served[i]? = some o) :
    st.history o.peer = o.session.tx.sent := by
  have hsome : (st.served.find? fun o' => o'.peer = o.peer).isSome = true :=
    List.find?_isSome.mpr ⟨o, List.mem_of_getElem? ho, by simp⟩
  obtain ⟨o', hfind⟩ := Option.isSome_iff_exists.mp hsome
  obtain ⟨j, hj⟩ := List.mem_iff_getElem?.mp (List.mem_of_find?_eq_some hfind)
  have hpeer : o'.peer = o.peer := by simpa using List.find?_some hfind
  obtain rfl := h j i o' o hj ho hpeer
  obtain rfl := Option.some.inj (hj.symm.trans ho)
  simp [history, hfind]

theorem Stream.history_of_forall_ne {c : Nat} (h : ∀ o ∈ st.served, o.peer ≠ c) :
    st.history c = [] := by
  have hnone : (st.served.find? fun o => o.peer = c) = none := by
    rw [List.find?_eq_none]
    intro o ho
    simpa using h o ho
  simp [history, hnone]

theorem Stream.Grows.history (h : st.Grows st') (hs : st.OnePerPeer) (hs' : st'.OnePerPeer)
    (c : Nat) :
    st.history c <+: st'.history c := by
  by_cases hex : ∃ o ∈ st.served, o.peer = c
  · obtain ⟨o, ho, rfl⟩ := hex
    obtain ⟨i, hi⟩ := List.mem_iff_getElem?.mp ho
    obtain ⟨o', hi', hpeer, hsent⟩ := h i o hi
    rw [Stream.history_eq hs hi, ← hpeer, Stream.history_eq hs' hi']
    exact hsent
  · rw [Stream.history_of_forall_ne fun o ho hp => hex ⟨o, ho, hp⟩]
    exact List.nil_prefix

theorem Stream.Moved.grows (hsc : sc.Works rs) {ev : StreamEvent}
    (hm : Stream.Moved rs sc id st ev st' out) (hsound : st.Sound rs sc b id) : st.Grows st' := by
  obtain ⟨n, code, himpl, hv⟩ := hsc
  refine hm.preserves (fun _ => ⟨rfl, List.prefix_refl _⟩)
    (fun o => ⟨rfl, (Session.extends_close o.session).sent⟩) ?_
  intro i o e session sent ho hs
  exact ⟨rfl, (Session.step_tx himpl (hv id) hs (hsound.served i o ho).1).2.1.sent⟩

theorem Stream.Handled.grows {loop loop' : DemuxLoop Nat}
    (hh : Stream.Handled rs sc id st loop loop' st' out) (hsound : st.Sound rs sc b id) :
    st.Grows st' := by
  refine hh.preserves (fun _ => ⟨rfl, List.prefix_refl _⟩) ?_ ?_
  · exact fun i o p ho => ⟨rfl, (Session.handle_tx (hsound.served i o ho).1 p).2.sent⟩
  · exact fun i o ho => ⟨rfl, (Session.finishHandler_tx (hsound.served i o ho).1).2.sent⟩

theorem Stream.OnePerPeer.of_stays (h : st.OnePerPeer) (hk : st.Stays st')
    (hlen : st'.served.length = st.served.length) :
    st'.OnePerPeer := by
  have hback : ∀ (i : Nat) (o' : Served Nat), st'.served[i]? = some o' →
      ∃ o, st.served[i]? = some o ∧ o.peer = o'.peer := by
    intro i o' ho'
    have hlt : i < st.served.length := hlen ▸ (List.getElem?_eq_some_iff.mp ho').1
    obtain ⟨o₁, ho₁, hpeer⟩ := hk i _ (List.getElem?_eq_getElem hlt)
    obtain rfl := Option.some.inj (ho₁.symm.trans ho')
    exact ⟨_, List.getElem?_eq_getElem hlt, hpeer.symm⟩
  intro i j o o' ho ho' hpeer
  obtain ⟨o₁, ho₁, hp₁⟩ := hback i o ho
  obtain ⟨o₂, ho₂, hp₂⟩ := hback j o' ho'
  exact h i j o₁ o₂ ho₁ ho₂ (hp₁.trans (hpeer.trans hp₂.symm))

/-- Only a registration adds a session, and it is the first one for its connection. -/
theorem Stream.OnePerPeer.moved {ev : StreamEvent} (hm : Stream.Moved rs sc id st ev st' out)
    (h : st.OnePerPeer)
    (hone : ∀ k, ev = .register k → ∀ c ∈ st.connects[k]?, ∀ o ∈ st.served, o.peer ≠ c.clientAddr) :
    st'.OnePerPeer := by
  have hstays := hm.stays
  cases hm with
  | dialOk | dialFail | sendAck => exact h
  | act | cleanup => exact h.of_stays hstays (by simp)
  | register k dest clientAddr hk =>
    have hclose : st.closeCurrent.OnePerPeer :=
      h.of_stays (Stream.Preserves.closeCurrent (fun _ => rfl) fun _ =>
        rfl) Stream.length_closeCurrent_served
    have hne : ∀ (i : Nat) (o : Served Nat), st.closeCurrent.served[i]? = some o →
        o.peer ≠ clientAddr := by
      refine Stream.served_closeCurrent (fun _ _ hq => hq) fun i o ho => ?_
      exact hone k rfl _ hk o (List.mem_of_getElem? ho)
    intro i j o o' ho ho' hpeer
    simp only [List.getElem?_append, List.getElem?_singleton] at ho ho'
    split at ho <;> split at ho'
    · exact hclose i j o o' ho ho' hpeer
    · simp only [Option.ite_none_right_eq_some, Option.some.injEq] at ho'
      obtain ⟨-, rfl⟩ := ho'
      exact absurd hpeer (hne i o ho)
    · simp only [Option.ite_none_right_eq_some, Option.some.injEq] at ho
      obtain ⟨-, rfl⟩ := ho
      exact absurd hpeer.symm (hne j o' ho')
    · simp only [Option.ite_none_right_eq_some] at ho ho'
      omega

theorem Stream.OnePerPeer.handled {loop loop' : DemuxLoop Nat}
    (hh : Stream.Handled rs sc id st loop loop' st' out) (h : st.OnePerPeer) : st'.OnePerPeer := by
  have hstays := hh.stays
  cases hh with
  | reack | delete => exact h
  | handle | finish => exact h.of_stays hstays (by simp)

end Stream

/-! ## The server -/

/-- A DATA packet comes from a block of some session with its StreamID. -/
def FromServer (sc : PepConfig) (server : Server Nat) (p : Packet) : Prop :=
  p.type = .data → ∃ o ∈ (server.stream p.streamID).served, ∃ b,
    FromBlock (sc.session p.streamID) o.session.tx.sent b p

section Server

variable {rs : ReedSolomon} {sc : PepConfig} {b : Nat} {s s' : Server Nat} {e : ServerEvent Nat}
  {out : List (Reply Nat)}

theorem Server.step_grows (hsc : sc.Works rs) (hs : s.step rs sc e = some (s', out))
    (hsound : ∀ id, (s.stream id).Sound rs sc b id) (id : UInt16) :
    (s.stream id).Grows (s'.stream id) := by
  have hset : ∀ id' loop st, (s.stream id').Grows st →
      (s.stream id).Grows ((s.set id' loop st).stream id) := by
    intro id' loop st hst
    by_cases hid : id = id'
    · subst hid
      simpa [Server.set] using hst
    · have heq : (s.set id' loop st).stream id = s.stream id := by simp [Server.set, hid]
      rw [heq]
      exact .refl (fun _ => ⟨rfl, List.prefix_refl _⟩) _
  rcases Server.step_cases hs with ⟨rAddr, a, err, rfl, -, -, rfl, rfl⟩ |
    ⟨rAddr, a, p, rfl, hread, -, rfl, rfl⟩ | ⟨id', ev, loop, st, rfl, hev, rfl⟩ | ⟨id', ev, st, rfl,
      hev, rfl⟩
  · exact .refl (fun _ => ⟨rfl, List.prefix_refl _⟩) _
  · refine hset _ _ _ fun i o ho => ⟨o, ?_, rfl, List.prefix_refl _⟩
    unfold Stream.lookup
    split
    · exact ho
    · split <;> exact ho
  · exact hset _ _ _ ((Stream.demux_handled hev).grows (hsound id'))
  · exact hset _ _ _ ((Stream.step_moved hev).grows hsc (hsound id'))

/-- The server makes a session only for a connection that has none. -/
def ServerEvent.First (s : Server Nat) : ServerEvent Nat → Prop
  | .stream id (.register k) =>
    ∀ c ∈ (s.stream id).connects[k]?, ∀ o ∈ (s.stream id).served, o.peer ≠ c.clientAddr
  | _ => True

instance (s : Server Nat) (e : ServerEvent Nat) : Decidable (e.First s) :=
  match e with
  | .stream id (.register k) => inferInstanceAs (Decidable
      (∀ c ∈ (s.stream id).connects[k]?, ∀ o ∈ (s.stream id).served, o.peer ≠ c.clientAddr))
  | .stream _ (.dialOk _) | .stream _ (.dialFail _ _) | .stream _ (.sendAck _) | .stream _
      (.act _ _)
  | .stream _ .cleanup | .recv _ _ | .demux _ _ => .isTrue trivial

theorem Server.step_onePerPeer (hs : s.step rs sc e = some (s', out)) (hfirst : e.First s)
    (h : ∀ id, (s.stream id).OnePerPeer) (id : UInt16) : (s'.stream id).OnePerPeer := by
  have hset : ∀ id' loop st, st.OnePerPeer → ((s.set id' loop st).stream id).OnePerPeer := by
    intro id' loop st hst
    by_cases hid : id = id'
    · subst hid
      simpa [Server.set] using hst
    · simpa [Server.set, hid] using h id
  rcases Server.step_cases hs with ⟨rAddr, a, err, rfl, -, -, rfl, rfl⟩ |
    ⟨rAddr, a, p, rfl, hread, -, rfl, rfl⟩ | ⟨id', ev, loop, st, rfl, hev, rfl⟩ | ⟨id', ev, st, rfl,
      hev, rfl⟩
  · exact h id
  · refine hset _ _ _ ?_
    unfold Stream.lookup
    split
    · exact h _
    · split <;> exact h _
  · exact hset _ _ _ ((h id').handled (Stream.demux_handled hev))
  · refine hset _ _ _ ((h id').moved (Stream.step_moved hev) ?_)
    rintro k rfl
    exact hfirst

theorem FromServer.mono {p : Packet} (h : FromServer sc s p)
    (hgrows : ∀ id, (s.stream id).Grows (s'.stream id)) :
    FromServer sc s' p := by
  intro ht
  obtain ⟨o, ho, b, hb⟩ := h ht
  obtain ⟨i, hi⟩ := List.mem_iff_getElem?.mp ho
  obtain ⟨o', hi', -, hsent⟩ := hgrows _ i o hi
  exact ⟨o', List.mem_of_getElem? hi', b, hb.mono hsent⟩

/-- A DATA packet that the server sends comes from one of its sessions. -/
theorem Server.replies_fromServer (hsc : sc.Works rs) (hs : s.step rs sc e = some (s', out))
    (hsound : ∀ id, (s.stream id).Sound rs sc b id) {r : Reply Nat} (hr : r ∈ out)
    {m : Option Answer × Bytes} (hm : m ∈ r.message) {p : Packet} (hread : readUDP m.2 = .ok p) :
    FromServer sc s' p := by
  obtain ⟨n, code, himpl, hv⟩ := hsc
  intro ht
  obtain ⟨a, ha, rfl⟩ := List.mem_map.mp hm
  cases r with
  | ack rAddr id peer dest =>
    simp only [Reply.datagram, sendPacketDirect] at ha
    split at ha
    · rename_i buf hmar
      rw [List.mem_singleton.mp ha, readUDP_short hmar (by simp),
        unmarshal_marshal_base (by simp) hmar] at hread
      cases hread
      cases ht
    · cases ha
  | err rAddr id msg =>
    simp only [Reply.datagram, sendPacketDirect] at ha
    split at ha
    · rename_i buf hmar
      rw [List.mem_singleton.mp ha, readUDP_addr (by simp) hmar] at hread
      cases hread
      cases ht
    · cases ha
  | session rAddr a' =>
    obtain rfl := List.mem_singleton.mp ha
    rcases Server.step_cases hs with ⟨_, a', err, rfl, -, -, rfl, rfl⟩ |
      ⟨_, a', p', rfl, -, -, rfl, rfl⟩ |
      ⟨id, ev, loop, st, rfl, hev, rfl⟩ | ⟨id, ev, st, rfl, hev, rfl⟩
    · cases hr
    · cases hr
    · have hh := Stream.demux_handled hev
      generalize s.loop = loop₀ at hh
      cases hh with
      | reack => cases List.mem_singleton.mp hr
      | handle | finish | delete => cases hr
    · cases Stream.step_moved hev with
      | dialFail | sendAck => cases List.mem_singleton.mp hr
      | dialOk | register | cleanup => cases hr
      | act i e o session sent ho hown hstep =>
        obtain ⟨a₁, ha₁, heq⟩ := List.mem_map.mp hr
        cases heq
        obtain ⟨htx, -, hsent⟩ := Session.step_tx himpl (hv id) hstep ((hsound id).served i o ho).1
        obtain ⟨q, hq, hid, hkind⟩ := (hsent a ha₁).read himpl (hv id) htx.inv
        obtain rfl := Except.ok.inj (hq.symm.trans hread)
        have hmem : { o with session } ∈
            ((s.set id s.loop ((s.stream id).update i fun _ => session)).stream
            q.streamID).served := by
          rw [show q.streamID = id from hid]
          refine List.mem_of_getElem? (i := i) ?_
          simp [Server.set, Stream.update, ho]
        rcases hkind with hb | ⟨ht', -⟩ | ⟨ht', -⟩ | ht' | ht'
        · refine ⟨{ o with session }, hmem, ?_⟩
          rw [show q.streamID = id from hid]
          exact hb
        all_goals
          rw [ht] at ht'
          cases ht'

end Server

/-! ## The client -/

namespace Client

variable {τ : Type} {rs : ReedSolomon} {cc : PepConfig} {s s' : Client τ} {e : ClientEvent τ}
  {out : List (Nat × Bytes)}

theorem forall_getElem?_modifyStage {conns : List (Conn τ)} {c : Nat}
    {f : ConnStage τ → ConnStage τ} {Q : Nat → Conn τ → Prop}
    (hf : ∀ conn, conns[c]? = some conn → Q c conn → Q c { conn with stage := f conn.stage })
    (h : ∀ (i : Nat) (conn : Conn τ), conns[i]? = some conn → Q i conn) (i : Nat) (conn : Conn τ)
    (hi : (modifyStage conns c f)[i]? = some conn) : Q i conn := by
  rw [getElem?_modifyStage] at hi
  split at hi
  · rename_i hci
    subst hci
    obtain ⟨conn', hconn, rfl⟩ := Option.map_eq_some_iff.mp hi
    exact hf conn' hconn (h c conn' hconn)
  · exact h i conn hi

theorem demux_loop {ev : DemuxEvent} (hs : s.demux rs cc ev = some s') :
    s'.loop = .read ∨ (∃ id, s'.loop = .reset id) ∨ ∃ id c, s'.loop = .handler id c := by
  cases ev with
  | dispatch =>
    simp only [demux] at hs
    split at hs
    · split at hs
      · cases hs
        simp only
        split
        · exact Or.inr (Or.inl ⟨_, rfl⟩)
        · split
          · exact Or.inl rfl
          · exact Or.inr (Or.inr ⟨_, _, rfl⟩)
      · cases hs
    · cases hs
  | finish =>
    simp only [demux] at hs
    split at hs <;> cases hs
    exact Or.inl rfl
  | delete =>
    simp only [demux] at hs
    split at hs <;> cases hs
    exact Or.inl rfl

/-- The demultiplexer has found a connection before the step, or finds it with the step. -/
theorem found_of_step (hs : s.step rs cc e = some (s', out)) {p : Packet} {source : τ} {c : Nat}
    (hl : s'.loop = .found p source c) :
    s.loop = .found p source c ∨
      ∃ a, e = .recv source a ∧ readUDP a = .ok p ∧ s.sessions.lookup p.streamID = some c := by
  cases e with
  | accept dest => cases step_moved hs <;> exact Or.inl hl
  | conn c e => cases step_moved hs <;> exact Or.inl hl
  | recv source' a =>
    simp only [step] at hs
    split at hs
    · rename_i hloop
      split at hs
      · cases hs
        exact Or.inl hl
      · rename_i q hread
        cases hs
        unfold lookup at hl
        split at hl
        · split at hl <;> exact Or.inl hl
        · split at hl
          · rename_i c' hc
            cases hl
            exact Or.inr ⟨a, rfl, hread, hc⟩
          · exact Or.inl hl
    · cases hs
  | demux ev =>
    simp only [step, Option.map_eq_some_iff, Prod.mk.injEq] at hs
    obtain ⟨_, hs, rfl, rfl⟩ := hs
    rcases demux_loop hs with hread | ⟨id, hreset⟩ | ⟨id, c', hhandler⟩
    · cases hread.symm.trans hl
    · cases hreset.symm.trans hl
    · cases hhandler.symm.trans hl
  | cleanup id =>
    cases step_moved hs
    exact Or.inl hl

theorem dispatch_eq (hs : s.demux rs cc .dispatch = some s') :
    ∃ p source c conn session, s.loop = .found p source c ∧ s.conns[c]? = some conn ∧
      conn.stage = .established session ∧
      s'.conns = modifyStage s.conns c fun _ =>
      .established (session.handle rs (cc.session conn.streamID) p) := by
  simp only [demux] at hs
  split at hs
  · rename_i p source c hloop
    split at hs
    · rename_i dest streamID session hc
      cases hs
      exact ⟨p, source, c, _, session, hloop, hc, rfl, rfl⟩
    · cases hs
  · cases hs

theorem step_act_isOwn {c : Nat} {conn : Conn τ} {session : Session} {ev : SessionEvent}
    (hc : s.conns[c]? = some conn) (hstage : conn.stage = .established session)
    (hs : s.step rs cc (.conn c (.act ev)) = some (s', out)) : ev.isOwn = true := by
  simp only [step, hc, connStep, hstage, Option.ite_none_right_eq_some] at hs
  exact hs.1

/-- What the client takes from its table and hands over. -/
structure Tracks (sc : PepConfig) {n : Nat} (code : Code UInt8 sc.fecK n) (server : Server Nat)
    (s : Client τ) :
    Prop where
  sessions : ∀ (c : Nat) (conn : Conn τ), s.conns[c]? = some conn →
    ∀ session, conn.stage = .established session → session.Follows code
    ((server.stream conn.streamID).history c)
  listed : ∀ id c, s.sessions.lookup id = some c → ∃ dest, s.requests[c]? = some (dest, id)
  found : ∀ p source c, s.loop = .found p source c →
    FromServer sc server p ∧ ∃ dest, s.requests[c]? = some (dest, p.streamID)

section Tracks

variable {sc : PepConfig} {n : Nat} {code : Code UInt8 sc.fecK n} {server server' : Server Nat}

theorem Tracks.extend (h : s.Tracks sc code server)
    (hgrows : ∀ id, (server.stream id).Grows (server'.stream id))
    (hone : ∀ id, (server.stream id).OnePerPeer) (hone' : ∀ id, (server'.stream id).OnePerPeer) :
    s.Tracks sc code server' := by
  refine ⟨?_, h.listed, ?_⟩
  · intro c conn hc session hstage
    exact (h.sessions c conn hc session hstage).extend ((hgrows _).history (hone _) (hone' _) c)
  · intro p source c hloop
    obtain ⟨hfrom, hreq⟩ := h.found p source c hloop
    exact ⟨hfrom.mono hgrows, hreq⟩

/-- The sessions of the client take their steps, and DATA packets are handed over in reach of
the writer. -/
theorem Tracks.sessions_step (hp : Peers rs sc cc code)
    (hblocks : ∀ id c, ∀ blk ∈ (server.stream id).history c, Flushed rs (sc.session id) blk)
    (h : s.Tracks sc code server) (hs : s.step rs cc e = some (s', out))
    (hdata : ∀ p source c conn session, e = .demux .dispatch → s.loop = .found p source c →
      s.conns[c]? = some conn → conn.stage = .established session → p.type = .data →
      ∃ b, FromBlock (sc.session conn.streamID) ((server.stream conn.streamID).history c) b p ∧
      InTurn session.rx b)
    (c : Nat) (conn : Conn τ) (hc : s'.conns[c]? = some conn) (session : Session)
    (hstage : conn.stage = .established session) :
    session.Follows code ((server.stream conn.streamID).history c) := by
  have hkeep : ∀ {c' : Nat} {f : ConnStage τ → ConnStage τ}, s'.conns = modifyStage s.conns c' f →
      (∀ conn, s.conns[c']? = some conn → ∀ session, f conn.stage = .established session →
        session.Follows code ((server.stream conn.streamID).history c')) →
      session.Follows code ((server.stream conn.streamID).history c) := by
    intro c' f hconns hf
    rw [hconns] at hc
    exact forall_getElem?_modifyStage (Q := fun i conn => ∀ session,
      conn.stage = .established session →
      session.Follows code ((server.stream conn.streamID).history i)) (fun conn hconn _ =>
      hf conn hconn)
      h.sessions c conn hc session hstage
  by_cases he : e = .demux .dispatch
  · subst he
    simp only [step, Option.map_eq_some_iff, Prod.mk.injEq] at hs
    obtain ⟨_, hs, rfl, rfl⟩ := hs
    obtain ⟨p, source, c', conn', session', hloop, hc', hstage', hconns⟩ := dispatch_eq hs
    refine hkeep hconns fun conn₁ hc₁ session₁ hs₁ => ?_
    obtain rfl := Option.some.inj (hc'.symm.trans hc₁)
    cases hs₁
    exact (h.sessions c' conn' hc' session' hstage').handle hp (hblocks _ _)
      (hdata p source c' conn' session' rfl hloop hc' hstage')
  · cases step_moved hs with
    | exhausted | send | ignore | found | delete => exact h.sessions c conn hc session hstage
    | accept dest lastID streamID hsearch =>
      simp only [List.getElem?_append, List.getElem?_singleton] at hc
      split at hc
      · exact h.sessions c conn hc session hstage
      · simp only [Option.ite_none_right_eq_some, Option.some.injEq] at hc
        obtain ⟨-, rfl⟩ := hc
        cases hstage
    | openChannel | take | refused | abandon =>
      exact hkeep rfl fun conn₁ _ session₁ hs₁ => by cases hs₁
    | register c' conn' source hc' hstage' =>
      refine hkeep rfl fun conn₁ hc₁ session₁ hs₁ => ?_
      cases hs₁
      exact (Session.Follows.new _).extend List.nil_prefix
    | act c' conn' session' ev session₂ sent hc' hstage' hstep =>
      refine hkeep rfl fun conn₁ hc₁ session₁ hs₁ => ?_
      obtain rfl := Option.some.inj (hc'.symm.trans hc₁)
      cases hs₁
      have hf := h.sessions c' conn' hc' session' hstage'
      exact hf.step hp (hblocks _ _) hstep (step_act_isOwn hc' hstage' hs)
    | answer =>
      exact hkeep rfl fun conn₁ hc₁ session₁ hs₁ =>
        h.sessions _ conn₁ hc₁ session₁ (ConnStage.of_answer hs₁)
    | handle => exact absurd rfl he
    | finish =>
      refine hkeep rfl fun conn₁ hc₁ session₁ hs₁ => ?_
      obtain ⟨session₀, hstage₀, rfl⟩ := ConnStage.of_mapSession hs₁
      exact (h.sessions _ conn₁ hc₁ session₀ hstage₀).finishHandler
    | cleanup =>
      refine hkeep rfl fun conn₁ hc₁ session₁ hs₁ => ?_
      obtain ⟨session₀, hstage₀, rfl⟩ := ConnStage.of_mapSession hs₁
      exact (h.sessions _ conn₁ hc₁ session₀ hstage₀).close

theorem Tracks.step (hp : Peers rs sc cc code)
    (hblocks : ∀ id c, ∀ blk ∈ (server.stream id).history c, Flushed rs (sc.session id) blk)
    (h : s.Tracks sc code server) (hs : s.step rs cc e = some (s', out))
    (hrecv : ∀ source a p, e = .recv source a → readUDP a = .ok p → FromServer sc server p)
    (hdata : ∀ p source c conn session, e = .demux .dispatch → s.loop = .found p source c →
      s.conns[c]? = some conn → conn.stage = .established session → p.type = .data →
      ∃ b, FromBlock (sc.session conn.streamID) ((server.stream conn.streamID).history c) b p ∧
      InTurn session.rx b) :
    s'.Tracks sc code server := by
  have hreq : ∀ {c : Nat} {r : Bytes × UInt16}, s.requests[c]? = some r →
      s'.requests[c]? = some r :=
    getElem?_of_isPrefix (step_moved hs).requests_isPrefix
  refine ⟨h.sessions_step hp hblocks hs hdata, ?_, ?_⟩
  · intro id c hlook
    suffices hold : s.sessions.lookup id = some c ∨ ∃ dest, s.requests[c]? = some (dest, id) by
      rcases hold with hlook | ⟨dest, hr⟩
      · obtain ⟨dest, hr⟩ := h.listed id c hlook
        exact ⟨dest, hreq hr⟩
      · exact ⟨dest, hreq hr⟩
    cases step_tableStep hs with
    | same hs' _ | done hs' _ | found _ _ _ _ hs' _ | closed _ _ _ _ _ _ hs' _ =>
      exact Or.inl (hs' ▸ hlook)
    | register c' id' hacked hdone hs' hl =>
      rw [hs', lookup_insert_eq] at hlook
      split at hlook
      · rename_i hid
        cases hlook
        obtain ⟨conn, source, hconn, rfl, -⟩ := hacked
        rw [hid]
        exact Or.inr ⟨conn.dest, getElem?_requests hconn⟩
      · exact Or.inl hlook
    | delete id' hloop hs' hl =>
      rw [hs', lookup_erase_eq, Option.ite_none_left_eq_some] at hlook
      exact Or.inl hlook.2
    | cleanup id' c' hc hclosed hs' hl =>
      rw [hs', lookup_erase_eq, Option.ite_none_left_eq_some] at hlook
      exact Or.inl hlook.2
  · intro p source c hl
    rcases found_of_step hs hl with hold | ⟨a, he, hread, hlook⟩
    · obtain ⟨hfrom, dest, hr⟩ := h.found p source c hold
      exact ⟨hfrom, dest, hreq hr⟩
    · obtain ⟨dest, hr⟩ := h.listed _ c hlook
      exact ⟨hrecv source a p he hread, dest, hreq hr⟩

end Tracks

end Client

/-! ## Download -/

/-- The DATA packet `p`, when it comes from the sessions `served`, comes from the one made for
connection `c`, from a block in reach of the writer. -/
def TimelyFor (cfg : Config) (served : List (Served Nat)) (c : Nat) (r : Receiver) (p : Packet) :
    Prop :=
  (∃ o ∈ served, ∃ b < o.session.tx.sent.length, FromBlock cfg o.session.tx.sent b p) →
    ∃ o ∈ served, o.peer = c ∧ ∃ b < o.session.tx.sent.length, FromBlock cfg o.session.tx.sent b p ∧
    InTurn r b

instance (cfg : Config) (served : List (Served Nat)) (c : Nat) (r : Receiver) (p : Packet) :
    Decidable (TimelyFor cfg served c r p) :=
  inferInstanceAs (Decidable (_ → ∃ o ∈ served, o.peer = c ∧
    ∃ b < o.session.tx.sent.length, FromBlock cfg o.session.tx.sent b p ∧ InTurn r b))

/-- The server makes one session for a connection, and the client hands over the DATA packets
of this session, in reach of the writer. -/
def DownloadInTime (sc : PepConfig) (s : Pair) : PairEvent → Prop
  | .server e => e.First s.server
  | .client (.demux .dispatch) =>
    match s.client.loop with
    | .found p _ c => ∀ conn ∈ s.client.conns[c]?, ∀ session ∈ conn.session?,
        TimelyFor (sc.session p.streamID) (s.server.stream p.streamID).served c session.rx p
    | _ => True
  | _ => True

instance (sc : PepConfig) (s : Pair) (e : PairEvent) : Decidable (DownloadInTime sc s e) :=
  match e with
  | .server e => inferInstanceAs (Decidable (e.First s.server))
  | .client (.demux .dispatch) =>
    match h : s.client.loop with
    | .found p _ c => decidable_of_iff
        (∀ conn ∈ s.client.conns[c]?, ∀ session ∈ conn.session?,
          TimelyFor (sc.session p.streamID) (s.server.stream p.streamID).served c session.rx p)
        (by simp [DownloadInTime, h])
    | .read | .handler _ _ | .reset _ => .isTrue (by simp [DownloadInTime, h])
  | .client (.demux .finish) | .client (.demux .delete) | .client (.recv _ _) | .client (.accept _)
  | .client (.conn _ _) | .client (.cleanup _) | .deliverServer _ _ | .deliverClient _
      _ | .dropServer _
  | .dropClient _ => .isTrue trivial

/-- The server has one session for a connection, the sessions of the client follow it, and so
do the datagrams on their way. -/
structure Downloads (sc : PepConfig) {n : Nat} (code : Code UInt8 sc.fecK n) (s : Pair) : Prop where
  onePerPeer : ∀ id, (s.server.stream id).OnePerPeer
  client : s.client.Tracks sc code s.server
  toClient : ∀ m ∈ s.toClient, ∀ p, readUDP m.2 = .ok p → FromServer sc s.server p

section Download

variable {rs : ReedSolomon} {cc sc : PepConfig} {n : Nat} {code : Code UInt8 sc.fecK n}
  {s s' : Pair}

theorem downloads_init : Downloads sc code {} where
  onePerPeer id i j o o' ho := by simp at ho
  client :=
    ⟨fun c conn hc => by simp at hc, fun id c hlook => by simp at hlook, fun p source c hl => by
      cases hl⟩
  toClient m hm := by simp at hm

theorem Downloads.lose (h : Downloads sc code s) (hl : s.Loses s') : Downloads sc code s' := by
  refine ⟨?_, ?_, ?_⟩
  · rw [hl.server]
    exact h.onePerPeer
  · rw [hl.client, hl.server]
    exact h.client
  · rw [hl.server]
    exact fun m hm => h.toClient m (hl.toClient m hm)

theorem Stream.history_flushed {st : Stream Nat} {b : Nat} {id : UInt16} (h : st.OnePerPeer)
    (hsound : st.Sound rs sc b id) (c : Nat) :
    ∀ blk ∈ st.history c, Flushed rs (sc.session id) blk := by
  intro blk hblk
  by_cases hex : ∃ o ∈ st.served, o.peer = c
  · obtain ⟨o, ho, rfl⟩ := hex
    obtain ⟨i, hi⟩ := List.mem_iff_getElem?.mp ho
    rw [Stream.history_eq h hi] at hblk
    exact (hsound.served i o hi).1.inv.1.blocks blk hblk
  · rw [Stream.history_of_forall_ne fun o ho hp => hex ⟨o, ho, hp⟩] at hblk
    cases hblk

theorem Downloads.serverStep (hsc : sc.Works rs) (hbase : Grounded rs cc sc code s)
    {e : ServerEvent Nat} (h : Downloads sc code s) (hs : s.serverStep rs sc e = some s')
    (hfirst : e.First s.server) :
    Downloads sc code s' := by
  simp only [Pair.serverStep, Option.map_eq_some_iff, Prod.exists] at hs
  obtain ⟨server, out, hstep, rfl⟩ := hs
  have hgrows := Server.step_grows hsc hstep hbase.server
  have hone := Server.step_onePerPeer hstep hfirst h.onePerPeer
  refine ⟨hone, h.client.extend hgrows h.onePerPeer hone, ?_⟩
  intro m hm p hread
  rcases List.mem_append.mp hm with hm | hm
  · exact (h.toClient m hm p hread).mono hgrows
  · obtain ⟨r, hr, hmr⟩ := List.mem_flatMap.mp hm
    exact Server.replies_fromServer hsc hstep hbase.server hr hmr hread

theorem Downloads.clientStep (hp : Peers rs sc cc code) (hbase : Grounded rs cc sc code s)
    {e : ClientEvent (Option Answer)} (h : Downloads sc code s)
    (hs : s.clientStep rs cc e = some s') (hrecv : ∀ source a, e = .recv source a →
      (source, a) ∈ s.toClient)
    (htime : DownloadInTime sc s (.client e)) : Downloads sc code s' := by
  simp only [Pair.clientStep, Option.map_eq_some_iff, Prod.exists] at hs
  obtain ⟨client, out, hstep, rfl⟩ := hs
  refine ⟨h.onePerPeer, ?_, h.toClient⟩
  refine h.client.step hp (fun id => Stream.history_flushed (h.onePerPeer id) (hbase.server id))
    hstep ?_ ?_
  · intro source a p he hread
    exact h.toClient _ (hrecv source a he) p hread
  · rintro p source c conn session rfl hloop hc hstage ht
    obtain ⟨hfrom, dest, hr⟩ := h.client.found p source c hloop
    have hid : p.streamID = conn.streamID := by
      have hreq := Client.getElem?_requests hc
      rw [hr] at hreq
      exact congrArg Prod.snd (Option.some.inj hreq)
    simp only [DownloadInTime, hloop] at htime
    obtain ⟨o, ho, b, hb⟩ := hfrom ht
    obtain ⟨o', ho', rfl, b', -, hb', hturn⟩ :=
      htime conn hc session (Conn.session?_eq_some.mpr hstage) ⟨o, ho, b, hb.lt, hb⟩
    obtain ⟨i, hi⟩ := List.mem_iff_getElem?.mp ho'
    rw [← hid, Stream.history_eq (h.onePerPeer _) hi]
    exact ⟨b', hb', hturn⟩

theorem Downloads.step (hp : Peers rs sc cc code) (hsc : sc.Works rs)
    (hbase : Grounded rs cc sc code s) {e : PairEvent} (h : Downloads sc code s)
    (htime : DownloadInTime sc s e) (hs : s.step rs cc sc e = some s') :
    Downloads sc code s' := by
  rcases Pair.step_cases hs with ⟨ev, rfl, hne, hs⟩ | ⟨ev, rfl, hne, hs⟩ |
    ⟨i, again, m, s₁, rfl, hm, hs, hl⟩ |
    ⟨i, again, m, s₁, rfl, hm, hs, hl⟩ | hl
  · exact h.clientStep hp hbase hs (fun source a he => absurd he (hne source a)) htime
  · exact h.serverStep hsc hbase hs htime
  · exact (h.serverStep hsc hbase hs trivial).lose hl
  · refine (h.clientStep hp hbase hs ?_ trivial).lose hl
    rintro _ _ ⟨⟩
    exact List.mem_of_getElem? hm
  · exact h.lose hl

end Download

/-- **Download of the whole proxy.** Let StreamIDs be given out as for the upload, let the
server make one session for a connection, and let the client hand over the DATA packets of this
session in reach of the writer. Then what has been written to a connection is a prefix of what
the server has read from the target that the connection asked for. -/
theorem relay_download {rs : ReedSolomon} {cc sc : PepConfig} (hcc : cc.Works rs)
    (hsc : sc.Works rs) (hk : cc.fecK = sc.fecK) (hm : cc.fecM = sc.fecM) {s : Pair}
    (hr : Reach (pair rs cc sc) (fun s e => Orderly s e ∧ DownloadInTime sc s e) s) {c : Nat}
    {conn : Conn (Option Answer)} (hc : s.client.conns[c]? = some conn) (hout : conn.tcpOut ≠ []) :
    ∃ o ∈ (s.server.stream conn.streamID).served, o.peer = c ∧ o.dest = conn.dest ∧
      conn.tcpOut <+: o.session.tx.tcpIn := by
  obtain ⟨n, code, hp⟩ := Peers.of_works hsc hcc hk hm
  have hinv : Grounded rs cc sc code s ∧ Downloads sc code s := by
    refine hr.invariant (I := fun s => Grounded rs cc sc code s ∧ Downloads sc code s)
      ⟨grounded_init, downloads_init⟩ ?_
    rintro s e s' ⟨hbase, hdown⟩ ⟨hok, htime⟩ hs
    exact ⟨hbase.step hp.impl hp.tx hcc hok hs, hdown.step hp hsc hbase htime hs⟩
  obtain ⟨hbase, hdown⟩ := hinv
  cases hses : conn.session? with
  | none => simp [Conn.tcpOut, hses] at hout
  | some session =>
    have hf := hdown.client.sessions c conn hc session (Conn.session?_eq_some.mp hses)
    have htcp : conn.tcpOut = session.rx.tcpOut := by simp [Conn.tcpOut, hses]
    rw [htcp] at hout ⊢
    by_cases hex : ∃ o ∈ (s.server.stream conn.streamID).served, o.peer = c
    · obtain ⟨o, ho, rfl⟩ := hex
      obtain ⟨i, hi⟩ := List.mem_iff_getElem?.mp ho
      rw [Stream.history_eq (hdown.onePerPeer _) hi] at hf
      have hreq := (hbase.asked _).served i o hi
      rw [Client.getElem?_requests hc] at hreq
      have hdest : conn.dest = o.dest := congrArg Prod.fst (Option.some.inj hreq)
      exact ⟨o, ho, rfl, hdest.symm, hf.tcpOut_isPrefix ((hbase.server _).served i o hi).1⟩
    · rw [Stream.history_of_forall_ne fun o ho hpeer => hex ⟨o, ho, hpeer⟩] at hf
      have hnone : session.rx.tcpOut <+: [] := by simpa using hf.rx.tcpOut_isPrefix
      exact absurd (List.prefix_nil.mp hnone) hout

/-- The same step at the other end. -/
def LinkEvent.mirror : LinkEvent → LinkEvent
  | .act x e => .act x.other e
  | .deliver y i again => .deliver y.other i again
  | .drop y i => .drop y.other i

/-- Connection 0 is established, and the first block from its target is written. -/
def firstDownload : List PairEvent :=
  firstHandshake ++ [.client (.conn 0 .register)] ++ (oneBlock.map LinkEvent.mirror).flatMap asPair

theorem relay_download_small :
    ∃ s o conn, Reach smallPair (fun s e => Orderly s e ∧ DownloadInTime smallPep s e) s ∧
      s.client.conns[0]? = some conn ∧ conn.tcpOut = [7] ∧
      o ∈ (s.server.stream conn.streamID).served ∧
      o.peer = 0 ∧ o.dest = conn.dest ∧ conn.tcpOut <+: o.session.tx.tcpIn := by
  obtain ⟨s, hr, hconns⟩ :
      ∃ s, Reach smallPair (fun s e => Orderly s e ∧ DownloadInTime smallPep s e) s ∧
        s.client.conns.map Conn.tcpOut = [[7]] :=
    Reach.exists_of_runOk _ firstDownload (by decide +kernel)
  obtain ⟨conn, hconn, hout⟩ := List.map_eq_singleton_iff.mp hconns
  have hc : s.client.conns[0]? = some conn := by rw [hconn]; rfl
  obtain ⟨o, ho, hrest⟩ :=
    relay_download smallPep_works smallPep_works rfl rfl hr hc (by simp [hout])
  exact ⟨s, o, conn, hr, hc, hout, ho, hrest⟩

end TcpPep
