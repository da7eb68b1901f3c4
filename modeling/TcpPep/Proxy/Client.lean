import TcpPep.Lib.Machine
import TcpPep.Lib.Table
import TcpPep.Proxy.Server

/-!
The client side: `proxy/client.go`.

A `ClientPEP` keeps two tables, `sessions` and `pendingConnects`, both under
StreamIDs. Their values are here the numbers of the intercepted connections, in
the order in which they were given a StreamID. A step is one lock-protected
section of `handleTCPConn`, of `udpDemuxLoop` or of `cleanupLoop`, or a step of a
session. `τ` is what is known about the origin of a datagram; the client looks
at none of it.

* `Client.step_moved`: everything a step can do;
* `Client.Moved.continues`: where a handshake that is still running was before a step;
* `Client.Pending.moved`: an entry of `pendingConnects` belongs to a connection that
  waits for its reply.
-/

namespace TcpPep

open Protocol Fec Events FiniteMap

/-- Where `handleTCPConn` stands after `getNextStreamID`. -/
inductive ConnStage (τ : Type) where
  | allocated
  /-- the channel is in `pendingConnects` or was; `reply` is its content -/
  | waiting (reply : Option (Except Bytes τ))
  /-- a CONN_ACK has been taken from the channel -/
  | succeeded (source : τ)
  /-- the session is in the table or was -/
  | established (session : Session)
  /-- refused or timed out; the TCP connection is closed -/
  | failed

/-- A TCP connection that has been given a StreamID. -/
structure Conn (τ : Type) where
  /-- the original destination -/
  dest : Bytes
  streamID : UInt16
  stage : ConnStage τ := .allocated

structure Client (τ : Type) where
  lastID : UInt16 := 0
  sessions : Table UInt16 Nat := ∅
  pendingConnects : Table UInt16 Nat := ∅
  conns : List (Conn τ) := []
  loop : DemuxLoop τ := .read

/-- The steps of one `handleTCPConn` and of its session. -/
inductive ConnEvent where
  /-- the channel is put into `pendingConnects` -/
  | openChannel
  /-- the CONNECT cannot be encoded -/
  | marshalFail
  /-- the CONNECT is sent, the first time or again -/
  | send
  /-- a reply is taken from the channel -/
  | take
  | timeout
  /-- the session is made and put into the table -/
  | register
  | act (e : SessionEvent)
  deriving DecidableEq

inductive ClientEvent (τ : Type) where
  /-- a connection to `dest` is intercepted and asks for a StreamID -/
  | accept (dest : Bytes)
  | conn (c : Nat) (e : ConnEvent)
  /-- the demultiplexer reads a datagram -/
  | recv (source : τ) (a : Bytes)
  | demux (e : DemuxEvent)
  /-- `cleanupLoop` finds the session of `id` closed or idle -/
  | cleanup (id : UInt16)
  deriving DecidableEq

/-- The loop of `getNextStreamID`: the new `lastID` and the StreamID, if one is free.
There is no result when it does not end within `fuel` rounds. -/
def searchStreamID (sessions : Table UInt16 Nat) (start : UInt16) :
    Nat → UInt16 → Option (UInt16 × Option UInt16)
  | 0, _ => none
  | fuel + 1, lastID =>
    let lastID := lastID % 4095 + 1
    if (sessions.lookup lastID).isNone then some (lastID, some lastID)
    else if lastID = start then some (lastID, none)
    else searchStreamID sessions start fuel lastID

/-- `getNextStreamID`. The loop has seen every StreamID after 4095 rounds. -/
def getNextStreamID (sessions : Table UInt16 Nat) (lastID : UInt16) :
    Option (UInt16 × Option UInt16) :=
  searchStreamID sessions lastID 4095 lastID

theorem getNextStreamID_of_free {sessions : Table UInt16 Nat} {lastID : UInt16}
    (h : sessions.lookup (lastID % 4095 + 1) = none) :
    getNextStreamID sessions lastID = some (lastID % 4095 + 1, some (lastID % 4095 + 1)) := by
  rw [getNextStreamID, show 4095 = 4094 + 1 from rfl, searchStreamID]
  simp [h]

variable {τ : Type}

/-- What the channel holds after a send; the send does not wake up a `handleTCPConn` that
has returned. -/
def ConnStage.answer (r : Except Bytes τ) : ConnStage τ → ConnStage τ
  | .waiting none => .waiting (some r)
  | stage => stage

def ConnStage.mapSession (f : Session → Session) : ConnStage τ → ConnStage τ
  | .established session => .established (f session)
  | stage => stage

theorem ConnStage.of_answer {r : Except Bytes τ} {stage : ConnStage τ} {session : Session}
    (h : stage.answer r = .established session) : stage = .established session := by
  unfold answer at h
  split at h
  · cases h
  · exact h

theorem ConnStage.of_mapSession {f : Session → Session} {stage : ConnStage τ} {session : Session}
    (h : stage.mapSession f = .established session) :
    ∃ session₀, stage = .established session₀ ∧ session = f session₀ := by
  unfold mapSession at h
  split at h
  · rename_i session₀
    cases h
    exact ⟨session₀, rfl, rfl⟩
  · rename_i hne
    exact absurd h (hne session)

def Conn.connectPacket (conn : Conn τ) : Packet :=
  { type := .connect, streamID := conn.streamID, addr := conn.dest }

namespace Client

variable (rs : ReedSolomon) (pc : PepConfig)

/-- Change the stage of connection `c`; proofs use `getElem?_modifyStage`. -/
@[irreducible] def modifyStage (conns : List (Conn τ)) (c : Nat) (f : ConnStage τ → ConnStage τ) :
    List (Conn τ) :=
  conns.modify c fun conn => { conn with stage := f conn.stage }

/-- A step of connection `c`, which is `conn`. -/
def connStep (s : Client τ) (c : Nat) (conn : Conn τ) (e : ConnEvent) :
    Option (Client τ × List (Nat × Bytes)) :=
  match conn.stage with
  | .allocated =>
    if e = .openChannel then
      some ({ s with conns := modifyStage s.conns c fun _ => .waiting none
                     pendingConnects := s.pendingConnects.insert conn.streamID c }, [])
    else none
  | .waiting reply =>
    match marshal conn.connectPacket with
    | .error _ =>
      if e = .marshalFail then
        some ({ s with conns := modifyStage s.conns c fun _ => .failed
                       pendingConnects := s.pendingConnects.erase conn.streamID }, [])
      else none
    | .ok buf =>
      match e, reply with
      | .send, _ => some (s, [(c, buf)])
      | .take, some (.ok source) =>
        some ({ s with conns := modifyStage s.conns c (fun _ => .succeeded source) }, [])
      | .take, some (.error _) =>
        some ({ s with conns := modifyStage s.conns c (fun _ => .failed) }, [])
      | .timeout, _ =>
        some ({ s with conns := modifyStage s.conns c fun _ => .failed
                       pendingConnects := s.pendingConnects.erase conn.streamID }, [])
      | _, _ => none
  | .succeeded _ =>
    if e = .register then
      -- an entry that is there is overwritten and its session left alone
      some ({ s with
        conns := modifyStage s.conns c fun _ => .established (newSession (pc.session conn.streamID))
        sessions := s.sessions.insert conn.streamID c }, [])
    else none
  | .established session =>
    match e with
    | .act e =>
      if e.isOwn then
        (session.step rs (pc.session conn.streamID) e).map fun r =>
          ({ s with conns := modifyStage s.conns c (fun _ => .established r.1) },
            r.2.map fun a => (c, a))
      else none
    | _ => none
  | .failed => none

/-- The demultiplexer's treatment of a packet up to the look-up of its session. -/
def lookup (s : Client τ) (source : τ) (p : Packet) : Client τ :=
  if p.type = .connAck ∨ p.type = .connErr then
    match s.pendingConnects.lookup p.streamID with
    | some c =>
      let r := if p.type = .connAck then .ok source else .error p.addr
      { s with
        conns := modifyStage s.conns c (.answer r)
        pendingConnects := s.pendingConnects.erase p.streamID }
    | none => s
  else
    match s.sessions.lookup p.streamID with
    | some c => { s with loop := .found p source c }
    | none => s

/-- The loop after the look-up. -/
def demux (s : Client τ) : DemuxEvent → Option (Client τ)
  | .dispatch =>
    match s.loop with
    | .found p _ c =>
      match s.conns[c]? with
      | some ⟨_, streamID, .established session⟩ =>
        let session := session.handle rs (pc.session streamID) p
        let loop :=
          if p.type = .reset then .reset p.streamID
          else if session.demux = .idle then .read
          else .handler p.streamID c
        some { s with conns := modifyStage s.conns c (fun _ => .established session), loop }
      | _ => none
    | _ => none
  | .finish =>
    match s.loop with
    | .handler _ c =>
      some { s with
        conns := modifyStage s.conns c (.mapSession Session.finishHandler), loop := .read }
    | _ => none
  | .delete =>
    match s.loop with
    | .reset id => some { s with sessions := s.sessions.erase id, loop := .read }
    | _ => none

/-- One step, with the datagrams it sends and the connection each belongs to. -/
def step (s : Client τ) : ClientEvent τ → Option (Client τ × List (Nat × Bytes))
  | .accept dest =>
    (getNextStreamID s.sessions s.lastID).map fun r =>
      ({ s with
        lastID := r.1
        conns := s.conns ++ (r.2.map fun streamID => { dest, streamID : Conn τ }).toList }, [])
  | .conn c e =>
    match s.conns[c]? with
    | some conn => s.connStep rs pc c conn e
    | none => none
  | .recv source a =>
    match s.loop with
    | .read =>
      match readUDP a with
      | .error _ => some (s, [])
      | .ok p => some (s.lookup source p, [])
    | _ => none
  | .demux e => (s.demux rs pc e).map fun s' => (s', [])
  | .cleanup id =>
    match s.sessions.lookup id with
    | some c =>
      some ({ s with conns := modifyStage s.conns c (.mapSession Session.close)
                     sessions := s.sessions.erase id }, [])
    | none => none

/-! ## What a step can do -/

inductive Moved (s : Client τ) : ClientEvent τ → Client τ → List (Nat × Bytes) → Prop
  | exhausted (dest : Bytes) (lastID : UInt16)
      (h : getNextStreamID s.sessions s.lastID = some (lastID, none)) :
      Moved s (.accept dest) { s with lastID } []
  | accept (dest : Bytes) (lastID streamID : UInt16)
      (h : getNextStreamID s.sessions s.lastID = some (lastID, some streamID)) :
      Moved s (.accept dest) { s with lastID, conns := s.conns ++ [{ dest, streamID }] } []
  | openChannel (c : Nat) (conn : Conn τ) (hc : s.conns[c]? = some conn)
      (hstage : conn.stage = .allocated) :
      Moved s (.conn c .openChannel)
        { s with conns := modifyStage s.conns c fun _ => .waiting none
                 pendingConnects := s.pendingConnects.insert conn.streamID c } []
  | send (c : Nat) (conn : Conn τ) (reply : Option (Except Bytes τ)) (buf : Bytes)
      (hc : s.conns[c]? = some conn) (hstage : conn.stage = .waiting reply)
      (hm : marshal conn.connectPacket = .ok buf) : Moved s (.conn c .send) s [(c, buf)]
  | take (c : Nat) (conn : Conn τ) (source : τ) (hc : s.conns[c]? = some conn)
      (hstage : conn.stage = .waiting (some (.ok source))) :
      Moved s (.conn c .take) { s with conns := modifyStage s.conns c (fun _ => .succeeded source) }
        []
  | refused (c : Nat) (conn : Conn τ) (msg : Bytes) (hc : s.conns[c]? = some conn)
      (hstage : conn.stage = .waiting (some (.error msg))) :
      Moved s (.conn c .take) { s with conns := modifyStage s.conns c (fun _ => .failed) } []
  | abandon (c : Nat) (conn : Conn τ) (reply : Option (Except Bytes τ)) (e : ConnEvent)
      (hc : s.conns[c]? = some conn) (hstage : conn.stage = .waiting reply)
        (he : e = .marshalFail ∨ e = .timeout) :
      Moved s (.conn c e)
        { s with conns := modifyStage s.conns c fun _ => .failed
                 pendingConnects := s.pendingConnects.erase conn.streamID } []
  | register (c : Nat) (conn : Conn τ) (source : τ) (hc : s.conns[c]? = some conn)
      (hstage : conn.stage = .succeeded source) :
      Moved s (.conn c .register)
        { s with
          conns := modifyStage s.conns c fun _ =>
            .established (newSession (pc.session conn.streamID))
          sessions := s.sessions.insert conn.streamID c } []
  | act (c : Nat) (conn : Conn τ) (session : Session) (e : SessionEvent) (session' : Session)
      (sent : List Bytes) (hc : s.conns[c]? = some conn)
      (hstage : conn.stage = .established session)
      (hs : session.step rs (pc.session conn.streamID) e = some (session', sent)) :
      Moved s (.conn c (.act e))
        { s with conns := modifyStage s.conns c (fun _ => .established session') }
        (sent.map fun a => (c, a))
  | ignore (source : τ) (a : Bytes) : Moved s (.recv source a) s []
  | answer (source : τ) (a : Bytes) (p : Packet) (c : Nat) (hread : readUDP a = .ok p)
      (ht : p.type = .connAck ∨ p.type = .connErr)
      (hc : s.pendingConnects.lookup p.streamID = some c) :
      Moved s (.recv source a)
        { s with
          conns := modifyStage s.conns c
            (.answer (if p.type = .connAck then .ok source else .error p.addr))
          pendingConnects := s.pendingConnects.erase p.streamID } []
  | found (source : τ) (a : Bytes) (p : Packet) (c : Nat) :
      Moved s (.recv source a) { s with loop := .found p source c } []
  | handle (c : Nat) (conn : Conn τ) (session : Session) (p : Packet) (loop : DemuxLoop τ)
      (hc : s.conns[c]? = some conn) (hstage : conn.stage = .established session) :
      Moved s (.demux .dispatch)
        { s with
          conns := modifyStage s.conns c fun _ =>
            .established (session.handle rs (pc.session conn.streamID) p)
          loop } []
  | finish (c : Nat) :
      Moved s (.demux .finish)
        { s with conns := modifyStage s.conns c (.mapSession Session.finishHandler), loop := .read }
          []
  | delete (id : UInt16) :
      Moved s (.demux .delete) { s with sessions := s.sessions.erase id, loop := .read } []
  | cleanup (id : UInt16) (c : Nat) :
      Moved s (.cleanup id)
        { s with conns := modifyStage s.conns c (.mapSession Session.close)
                 sessions := s.sessions.erase id } []

variable {rs pc} {s s' : Client τ} {out : List (Nat × Bytes)}

theorem connStep_moved {c : Nat} {conn : Conn τ} {e : ConnEvent} (hc : s.conns[c]? = some conn)
    (hs : s.connStep rs pc c conn e = some (s', out)) : Moved rs pc s (.conn c e) s' out := by
  unfold connStep at hs
  split at hs
  · rename_i hstage
    simp only [Option.ite_none_right_eq_some, Option.some.injEq, Prod.mk.injEq] at hs
    obtain ⟨rfl, rfl, rfl⟩ := hs
    exact .openChannel c conn hc hstage
  · rename_i reply hstage
    split at hs
    · simp only [Option.ite_none_right_eq_some, Option.some.injEq, Prod.mk.injEq] at hs
      obtain ⟨rfl, rfl, rfl⟩ := hs
      exact .abandon c conn reply _ hc hstage (Or.inl rfl)
    · rename_i buf hm
      split at hs
      · cases hs
        exact .send c conn reply buf hc hstage hm
      · cases hs
        exact .take c conn _ hc hstage
      · cases hs
        exact .refused c conn _ hc hstage
      · cases hs
        exact .abandon c conn reply _ hc hstage (Or.inr rfl)
      · cases hs
  · rename_i source hstage
    simp only [Option.ite_none_right_eq_some, Option.some.injEq, Prod.mk.injEq] at hs
    obtain ⟨rfl, rfl, rfl⟩ := hs
    exact .register c conn source hc hstage
  · rename_i session hstage
    split at hs
    · simp only [Option.ite_none_right_eq_some, Option.map_eq_some_iff, Prod.mk.injEq,
        Prod.exists] at hs
      obtain ⟨-, session', sent, hs, rfl, rfl⟩ := hs
      exact .act c conn session _ session' sent hc hstage hs
    · cases hs
  · cases hs

theorem step_moved {e : ClientEvent τ} (hs : s.step rs pc e = some (s', out)) :
    Moved rs pc s e s' out := by
  cases e with
  | accept dest =>
    simp only [step, Option.map_eq_some_iff, Prod.exists, Prod.mk.injEq] at hs
    obtain ⟨lastID, _ | streamID, hsearch, rfl, rfl⟩ := hs
    · have hm : Moved rs pc s (.accept dest) { s with lastID } [] := .exhausted dest lastID hsearch
      simpa using hm
    · exact .accept dest lastID streamID hsearch
  | conn c e =>
    simp only [step] at hs
    split at hs
    · rename_i conn hc
      exact connStep_moved hc hs
    · cases hs
  | recv source a =>
    simp only [step] at hs
    split at hs
    · split at hs
      · cases hs
        exact .ignore source a
      · rename_i p hread
        cases hs
        unfold lookup
        split
        · rename_i ht
          split
          · rename_i c hc
            exact .answer source a p c hread ht hc
          · exact .ignore source a
        · split
          · rename_i c hc
            exact .found source a p c
          · exact .ignore source a
    · cases hs
  | demux e =>
    simp only [step, Option.map_eq_some_iff, Prod.mk.injEq] at hs
    obtain ⟨_, hs, rfl, rfl⟩ := hs
    cases e with
    | dispatch =>
      simp only [demux] at hs
      split at hs
      · rename_i p source c hloop
        split at hs
        · rename_i dest streamID session hc
          cases hs
          exact .handle c _ session p _ hc rfl
        · cases hs
      · cases hs
    | finish =>
      simp only [demux] at hs
      split at hs
      · cases hs
        exact .finish _
      · cases hs
    | delete =>
      simp only [demux] at hs
      split at hs
      · cases hs
        exact .delete _
      · cases hs
  | cleanup id =>
    simp only [step] at hs
    split at hs
    · rename_i c hc
      cases hs
      exact .cleanup id c
    · cases hs

/-! ## The connections and their stages -/

/-- What the connections asked for and were given. -/
def requests (s : Client τ) : List (Bytes × UInt16) := s.conns.map fun conn =>
    (conn.dest, conn.streamID)

theorem getElem?_modifyStage (conns : List (Conn τ)) (c : Nat) (f : ConnStage τ → ConnStage τ)
    (i : Nat) :
    (modifyStage conns c f)[i]? =
      if c = i then conns[i]?.map fun conn =>
      { conn with stage := f conn.stage } else conns[i]? := by
  simp only [modifyStage, List.getElem?_modify]
  split
  · rfl
  · simp

theorem modifyStage_concat (conns : List (Conn τ)) (conn : Conn τ) (f : ConnStage τ → ConnStage τ) :
    modifyStage (conns ++ [conn]) conns.length f = conns ++
      [{ conn with stage := f conn.stage }] := by
  refine List.ext_getElem? fun i => ?_
  rw [getElem?_modifyStage]
  rcases Nat.lt_trichotomy i conns.length with hlt | heq | hgt
  · rw [if_neg (by omega), List.getElem?_append_left hlt, List.getElem?_append_left hlt]
  · subst heq
    simp
  · rw [if_neg (by omega), List.getElem?_eq_none (by simp; omega),
      List.getElem?_eq_none (by simp; omega)]

theorem forall_modifyStage {conns : List (Conn τ)} {c : Nat} {f : ConnStage τ → ConnStage τ}
    {P : Conn τ → Prop} (hf : ∀ conn, conns[c]? = some conn → P conn →
      P { conn with stage := f conn.stage })
    (h : ∀ conn ∈ conns, P conn) : ∀ conn ∈ modifyStage conns c f, P conn := by
  intro conn hmem
  obtain ⟨i, hi⟩ := List.mem_iff_getElem?.mp hmem
  rw [getElem?_modifyStage] at hi
  split at hi
  · rename_i hci
    subst hci
    obtain ⟨conn', hconn, rfl⟩ := Option.map_eq_some_iff.mp hi
    exact hf conn' hconn (h conn' (List.mem_of_getElem? hconn))
  · exact h conn (List.mem_of_getElem? hi)

theorem requests_of_modifyStage {c : Nat} {f : ConnStage τ → ConnStage τ}
    (hs : s'.conns = modifyStage s.conns c f) : s'.requests = s.requests := by
  refine List.ext_getElem? fun i => ?_
  simp only [requests, hs, List.getElem?_map, getElem?_modifyStage]
  split
  · simp [Function.comp_def]
  · rfl

theorem getElem?_requests {c : Nat} {conn : Conn τ} (hc : s.conns[c]? = some conn) :
    s.requests[c]? = some (conn.dest, conn.streamID) := by
  simp [requests, hc]

/-- A step adds at most one connection and keeps what the others asked for. -/
theorem Moved.requests {e : ClientEvent τ} (hm : Moved rs pc s e s' out) :
    s'.requests = s.requests ∨ ∃ dest lastID streamID, e = .accept dest ∧
      getNextStreamID s.sessions s.lastID = some (lastID, some streamID) ∧
      s'.conns = s.conns ++ [{ dest, streamID : Conn τ }] := by
  cases hm with
  | accept dest lastID streamID h => exact Or.inr ⟨dest, lastID, streamID, rfl, h, rfl⟩
  | exhausted | send | ignore | found | delete => exact Or.inl rfl
  | openChannel | take | refused | abandon | register | act | answer | handle | finish | cleanup =>
    exact Or.inl (requests_of_modifyStage rfl)

end Client

/-- `handleTCPConn` has neither given up nor registered its session. -/
def ConnStage.handshaking : ConnStage τ → Bool
  | .allocated | .waiting _ | .succeeded _ => true
  | .established _ | .failed => false

/-- The origin of the CONN_ACK that was put into the channel. -/
def ConnStage.answeredBy : ConnStage τ → Option τ
  | .waiting (some (.ok source)) => some source
  | .succeeded source => some source
  | _ => none

theorem ConnStage.handshaking_of_answeredBy {stage : ConnStage τ} {source : τ}
    (h : stage.answeredBy = some source) : stage.handshaking = true := by
  unfold answeredBy at h
  split at h
  · rfl
  · rfl
  · cases h

namespace Client

variable {rs : ReedSolomon} {pc : PepConfig} {s s' : Client τ} {out : List (Nat × Bytes)}
  {e : ClientEvent τ}

/-- The handshake of connection `i`, now `conn'`, was running before the step `e`, and its
CONN_ACK was there or has just come. -/
def Continues (s : Client τ) (e : ClientEvent τ) (i : Nat) (conn' : Conn τ) : Prop :=
  ∃ conn, s.conns[i]? = some conn ∧ conn.dest = conn'.dest ∧ conn.streamID = conn'.streamID ∧
    conn.stage.handshaking = true ∧
    ∀ source, conn'.stage.answeredBy = some source → conn.stage.answeredBy = some source ∨
      ∃ a p, e = .recv source a ∧ readUDP a = .ok p ∧ p.type = .connAck ∧
        s.pendingConnects.lookup p.streamID = some i

theorem Continues.refl {i : Nat} {conn : Conn τ} (hc : s.conns[i]? = some conn)
    (hh : conn.stage.handshaking = true) : Continues s e i conn :=
  ⟨conn, hc, rfl, rfl, hh, fun _ => Or.inl⟩

theorem Continues.of_modifyStage {c i : Nat} {f : ConnStage τ → ConnStage τ} {conn' : Conn τ}
    (hs : s'.conns = modifyStage s.conns c f) (hc : s'.conns[i]? = some conn')
    (hh : conn'.stage.handshaking = true)
    (hf : ∀ conn, s.conns[c]? = some conn → (f conn.stage).handshaking = true →
      Continues s e c { conn with stage := f conn.stage }) : Continues s e i conn' := by
  rw [hs, getElem?_modifyStage] at hc
  split at hc
  · rename_i hci
    subst hci
    obtain ⟨conn, hconn, rfl⟩ := Option.map_eq_some_iff.mp hc
    exact hf conn hconn hh
  · exact .refl hc hh

/-- A handshake that runs after a step ran before it, or has just begun. -/
theorem Moved.continues (hm : Moved rs pc s e s' out) {i : Nat} {conn' : Conn τ}
    (hc : s'.conns[i]? = some conn') (hh : conn'.stage.handshaking = true) :
    Continues s e i conn' ∨ i = s.conns.length ∧ s'.conns = s.conns ++ [conn'] ∧
    conn'.stage = .allocated := by
  cases hm with
  | exhausted | send | ignore | found | delete => exact Or.inl (.refl hc hh)
  | accept dest lastID streamID h =>
    rcases Nat.lt_trichotomy i s.conns.length with hlt | heq | hgt
    · rw [List.getElem?_append_left hlt] at hc
      exact Or.inl (.refl hc hh)
    · subst heq
      rw [List.getElem?_concat_length] at hc
      cases hc
      exact Or.inr ⟨rfl, rfl, rfl⟩
    · rw [List.getElem?_eq_none (by
        simp only [List.length_append, List.length_singleton]; omega)] at hc
      cases hc
  | openChannel c conn hconn hstage =>
    refine Or.inl (.of_modifyStage rfl hc hh fun conn₁ hconn₁ _ => ?_)
    obtain rfl := Option.some.inj (hconn.symm.trans hconn₁)
    exact ⟨conn, hconn, rfl, rfl, by simp [hstage, ConnStage.handshaking], by
      simp [ConnStage.answeredBy]⟩
  | take c conn source hconn hstage =>
    refine Or.inl (.of_modifyStage rfl hc hh fun conn₁ hconn₁ _ => ?_)
    obtain rfl := Option.some.inj (hconn.symm.trans hconn₁)
    exact ⟨conn, hconn, rfl, rfl, by simp [hstage, ConnStage.handshaking],
      by simp [hstage, ConnStage.answeredBy]⟩
  | refused | abandon | register | act | handle =>
    refine Or.inl (.of_modifyStage rfl hc hh fun conn₁ _ hh => ?_)
    simp [ConnStage.handshaking] at hh
  | answer source a p c hread ht hpend =>
    refine Or.inl (.of_modifyStage rfl hc hh fun conn hconn hh => ?_)
    by_cases hstage : conn.stage = .waiting none
    · refine ⟨conn, hconn, rfl, rfl, by simp [hstage, ConnStage.handshaking], ?_⟩
      intro source' hsource
      rw [hstage] at hsource
      by_cases hack : p.type = .connAck
      · simp only [ConnStage.answer, hack, ↓reduceIte, ConnStage.answeredBy,
          Option.some.injEq] at hsource
        subst hsource
        exact Or.inr ⟨a, p, rfl, hread, hack, hpend⟩
      · simp [ConnStage.answer, hack, ConnStage.answeredBy] at hsource
    · have hsame : ∀ r, ConnStage.answer r conn.stage = conn.stage := by
        intro r
        unfold ConnStage.answer
        split
        · rename_i h
          exact absurd h hstage
        · rfl
      rw [hsame] at hh ⊢
      exact .refl hconn hh
  | finish | cleanup =>
    refine Or.inl (.of_modifyStage rfl hc hh fun conn hconn hh => ?_)
    have hsame : ∀ f, (ConnStage.mapSession f conn.stage).handshaking = true →
        ConnStage.mapSession f conn.stage = conn.stage := by
      intro f
      cases conn.stage <;> simp [ConnStage.mapSession, ConnStage.handshaking]
    have hstage := hsame _ hh
    rw [hstage] at hh ⊢
    exact .refl hconn hh

/-- What is sent is a CONNECT of a connection that waits, or comes from a session. -/
theorem Moved.sent (hm : Moved rs pc s e s' out) {m : Nat × Bytes} (hmem : m ∈ out) :
    ∃ conn, s.conns[m.1]? = some conn ∧
      (marshal conn.connectPacket = .ok m.2 ∨
        ∃ session e session' sent, conn.stage = .established session ∧
          session.step rs (pc.session conn.streamID) e = some (session', sent) ∧ m.2 ∈ sent) := by
  cases hm with
  | send c conn reply buf hc hstage hmar =>
    rw [List.mem_singleton.mp hmem]
    exact ⟨conn, hc, Or.inl hmar⟩
  | act c conn session e session' sent hc hstage hs =>
    obtain ⟨a, ha, rfl⟩ := List.mem_map.mp hmem
    exact ⟨conn, hc, Or.inr ⟨session, e, session', sent, hstage, hs, ha⟩⟩
  | _ => cases hmem

/-! ## The table of pending handshakes -/

/-- An entry of `pendingConnects` belongs to a connection that waits for its reply. -/
def Pending (s : Client τ) : Prop :=
  ∀ id c, s.pendingConnects.lookup id = some c →
    ∃ conn, s.conns[c]? = some conn ∧ conn.streamID = id ∧ conn.stage = .waiting none

theorem Pending.keep (h : s.Pending) {c : Nat} {f : ConnStage τ → ConnStage τ}
    (hp : s'.pendingConnects = s.pendingConnects) (hs : s'.conns = modifyStage s.conns c f)
    (hf : ∀ conn, s.conns[c]? = some conn → conn.stage = .waiting none →
      f (.waiting none) = .waiting none) :
    s'.Pending := by
  intro id c' hlook
  rw [hp] at hlook
  rw [hs]
  obtain ⟨conn, hconn, hid, hstage⟩ := h id c' hlook
  rw [getElem?_modifyStage]
  by_cases hcc : c = c'
  · subst hcc
    exact ⟨{ conn with stage := f conn.stage }, by rw [if_pos rfl, hconn]; rfl, hid,
      (congrArg f hstage).trans (hf conn hconn hstage)⟩
  · exact ⟨conn, by rw [if_neg hcc, hconn], hid, hstage⟩

/-- A connection whose stage no longer waits has its own entry deleted. -/
theorem Pending.erase (h : s.Pending) {c : Nat} {conn : Conn τ} {f : ConnStage τ → ConnStage τ}
    (hc : s.conns[c]? = some conn) (hp : s'.pendingConnects = s.pendingConnects.erase conn.streamID)
    (hs : s'.conns = modifyStage s.conns c f) : s'.Pending := by
  intro id c' hlook
  simp only [hp, lookup_erase_eq, Option.ite_none_left_eq_some] at hlook
  obtain ⟨hne, hlook⟩ := hlook
  obtain ⟨conn', hconn', hid, hstage⟩ := h id c' hlook
  have hcc : c ≠ c' := by
    rintro rfl
    obtain rfl := Option.some.inj (hc.symm.trans hconn')
    exact hne hid.symm
  exact ⟨conn', by rw [hs, getElem?_modifyStage, if_neg hcc, hconn'], hid, hstage⟩

theorem Pending.moved (h : s.Pending) (hm : Moved rs pc s e s' out) : s'.Pending := by
  cases hm with
  | exhausted | send | ignore | found | delete => exact h
  | accept dest lastID streamID hsearch =>
    intro id c hlook
    obtain ⟨conn, hconn, hid, hstage⟩ := h id c hlook
    exact ⟨conn, by rw [List.getElem?_append_left (List.getElem?_eq_some_iff.mp hconn).1, hconn],
      hid, hstage⟩
  | openChannel c conn hconn hstage =>
    intro id c' hlook
    simp only [lookup_insert_eq] at hlook
    split at hlook
    · rename_i hid
      cases hlook
      refine ⟨{ conn with stage := .waiting none }, ?_, hid.symm, rfl⟩
      rw [getElem?_modifyStage, if_pos rfl, hconn]
      rfl
    · have hkeep :
          ({ s with conns := modifyStage s.conns c fun _ => .waiting none } : Client τ).Pending :=
        h.keep rfl rfl fun _ _ _ => rfl
      exact hkeep id c' hlook
  | take c conn source hconn hstage =>
    refine h.keep rfl rfl fun conn₁ hconn₁ hwait => ?_
    obtain rfl := Option.some.inj (hconn.symm.trans hconn₁)
    simp [hstage] at hwait
  | refused c conn msg hconn hstage =>
    refine h.keep rfl rfl fun conn₁ hconn₁ hwait => ?_
    obtain rfl := Option.some.inj (hconn.symm.trans hconn₁)
    simp [hstage] at hwait
  | abandon c conn reply e hconn hstage he => exact h.erase hconn rfl rfl
  | register c conn source hconn hstage =>
    refine h.keep rfl rfl fun conn₁ hconn₁ hwait => ?_
    obtain rfl := Option.some.inj (hconn.symm.trans hconn₁)
    simp [hstage] at hwait
  | act c conn session e session' sent hconn hstage hs =>
    refine h.keep rfl rfl fun conn₁ hconn₁ hwait => ?_
    obtain rfl := Option.some.inj (hconn.symm.trans hconn₁)
    simp [hstage] at hwait
  | answer source a p c hread ht hpend =>
    obtain ⟨conn, hconn, hid, -⟩ := h _ _ hpend
    exact h.erase hconn (by rw [hid]) rfl
  | handle c conn session p loop hconn hstage =>
    refine h.keep rfl rfl fun conn₁ hconn₁ hwait => ?_
    obtain rfl := Option.some.inj (hconn.symm.trans hconn₁)
    simp [hstage] at hwait
  | finish c => exact h.keep rfl rfl fun _ _ _ => rfl
  | cleanup id c => exact h.keep rfl rfl fun _ _ _ => rfl

end Client

end TcpPep
