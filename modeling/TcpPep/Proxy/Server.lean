import Mathlib.Logic.Function.Basic
import TcpPep.Lib.Machine
import TcpPep.Proxy.Session

/-!
The server side: `proxy/server.go`.

Everything a `ServerPEP` keeps is filed under a StreamID: the entry of
`sessions`, the sessions made so far, whether or not they are still in the
table, and the `handleConnect` goroutines that run. A step is one lock-protected
section of `udpDemuxLoop`, of a `handleConnect`, of `cleanupLoop`, or a step of
a session. `α` is the type of UDP addresses; the server compares none of them.
-/

namespace TcpPep

open Protocol Fec Events

/-- The parameters a PEP gives to the sessions it makes. -/
structure PepConfig where
  mtu : Nat
  bandwidth : Nat
  fecK : Nat
  fecM : Nat

def PepConfig.session (pc : PepConfig) (streamID : UInt16) : Config :=
  { streamID, linkMTU := pc.mtu, bandwidth := pc.bandwidth, fecK := pc.fecK, fecM := pc.fecM }

/-- A session the server has made. -/
structure Served (α : Type) where
  /-- `PEPAddr`, the address of the CONNECT that it was made for -/
  peer : α
  /-- the target its TCP connection was dialled to -/
  dest : Bytes
  session : Session

/-- Where `handleConnect` stands: dialling, connected, or with its CONN_ACK sent. -/
inductive ConnectStage where
  | dial
  | ack
  | register
  deriving DecidableEq

/-- A running `handleConnect`. -/
structure Connecting (α : Type) where
  dest : Bytes
  clientAddr : α
  stage : ConnectStage := .dial
  deriving DecidableEq

/-- What the server keeps under one StreamID. -/
structure Stream (α : Type) where
  /-- the entry of `sessions`, as a position in `served` -/
  current : Option Nat := none
  /-- the sessions made so far -/
  served : List (Served α) := []
  connects : List (Connecting α) := []

/-- Where `udpDemuxLoop` stands. -/
inductive DemuxLoop (α : Type) where
  | read
  /-- session `i` was found for a packet -/
  | found (p : Packet) (rAddr : α) (i : Nat)
  /-- a handler of session `i` has left its locked part -/
  | handler (id : UInt16) (i : Nat)
  /-- a RESET has closed its session and not deleted the entry yet -/
  | reset (id : UInt16)
  deriving DecidableEq

structure Server (α : Type) where
  stream : UInt16 → Stream α := fun _ => {}
  loop : DemuxLoop α := .read

/-- What the server writes to the UDP socket, by the place that writes it. -/
inductive Reply (α : Type) where
  /-- a CONN_ACK; `peer` and `dest` are those of the session that answers and are not sent -/
  | ack (rAddr : α) (id : UInt16) (peer : α) (dest : Bytes)
  /-- `sendError` -/
  | err (rAddr : α) (id : UInt16) (msg : Bytes)
  /-- a datagram of a session -/
  | session (rAddr : α) (a : Bytes)
  deriving DecidableEq

def Reply.rAddr {α : Type} : Reply α → α
  | .ack rAddr _ _ _ => rAddr
  | .err rAddr _ _ => rAddr
  | .session rAddr _ => rAddr

/-- The datagram of a reply; nothing is sent when `Marshal` fails. -/
def Reply.datagram {α : Type} : Reply α → List Bytes
  | .ack _ id _ _ => sendPacketDirect { type := .connAck, streamID := id }
  | .err _ id msg => sendPacketDirect { type := .connErr, streamID := id, addr := msg }
  | .session _ a => [a]

/-- The steps of the demultiplexer after the look-up. -/
inductive DemuxEvent where
  | dispatch
  | finish
  | delete
  deriving DecidableEq

/-- The other steps that concern one StreamID. -/
inductive StreamEvent where
  /-- `handleConnect` number `k` gets its TCP connection -/
  | dialOk (k : Nat)
  /-- resolving or dialling fails -/
  | dialFail (k : Nat) (msg : Bytes)
  | sendAck (k : Nat)
  | register (k : Nat)
  /-- session `i` takes a step of its own -/
  | act (i : Nat) (e : SessionEvent)
  /-- `cleanupLoop` finds the session closed or idle -/
  | cleanup
  deriving DecidableEq

inductive ServerEvent (α : Type) where
  /-- the demultiplexer reads a datagram and looks its session up -/
  | recv (rAddr : α) (a : Bytes)
  | demux (id : UInt16) (e : DemuxEvent)
  | stream (id : UInt16) (e : StreamEvent)
  deriving DecidableEq

/-- The steps of a session that are not calls by its PEP. -/
def SessionEvent.isOwn : SessionEvent → Bool
  | .launch | .start | .tx _ | .rx _ => true
  | .recv _ | .finishHandler | .cancel => false

variable {α : Type}

namespace Stream

/-- Change the session at position `i`. -/
def update (st : Stream α) (i : Nat) (f : Session → Session) : Stream α :=
  { st with served := st.served.modify i fun o => { o with session := f o.session } }

/-- `Close` the session of the table, if there is one. -/
def closeCurrent (st : Stream α) : Stream α :=
  match st.current with
  | some i => st.update i Session.close
  | none => st

def step (rs : ReedSolomon) (pc : PepConfig) (id : UInt16) (st : Stream α) :
    StreamEvent → Option (Stream α × List (Reply α))
  | .dialOk k =>
    match st.connects[k]? with
    | some ⟨dest, clientAddr, .dial⟩ =>
      some ({ st with connects := st.connects.set k ⟨dest, clientAddr, .ack⟩ }, [])
    | _ => none
  | .dialFail k msg =>
    match st.connects[k]? with
    | some ⟨_, clientAddr, .dial⟩ =>
      some ({ st with connects := st.connects.eraseIdx k }, [.err clientAddr id msg])
    | _ => none
  | .sendAck k =>
    match st.connects[k]? with
    | some ⟨dest, clientAddr, .ack⟩ =>
      some ({ st with connects := st.connects.set k ⟨dest, clientAddr, .register⟩ },
        [.ack clientAddr id clientAddr dest])
    | _ => none
  | .register k =>
    match st.connects[k]? with
    | some ⟨dest, clientAddr, .register⟩ =>
      -- a session that is in the table is closed and replaced
      let st := st.closeCurrent
      some ({ current := some st.served.length
              served := st.served ++ [⟨clientAddr, dest, newSession (pc.session id)⟩]
              connects := st.connects.eraseIdx k }, [])
    | _ => none
  | .act i e =>
    match st.served[i]? with
    | some o =>
      if e.isOwn then
        (o.session.step rs (pc.session id) e).map fun r =>
          (st.update i fun _ => r.1, r.2.map (Reply.session o.peer))
      else none
    | none => none
  | .cleanup =>
    match st.current with
    | some _ => some ({ st.closeCurrent with current := none }, [])
    | none => none

/-- The look-up of a packet, and what is done without a session. -/
def lookup (st : Stream α) (rAddr : α) (p : Packet) : DemuxLoop α × Stream α :=
  match st.current with
  | some i => (.found p rAddr i, st)
  | none =>
    if p.type = .connect then
      (.read, { st with connects := st.connects ++ [{ dest := p.addr, clientAddr := rAddr }] })
    else (.read, st)

/-- The loop after the look-up, while it works for this StreamID. -/
def demux (rs : ReedSolomon) (pc : PepConfig) (id : UInt16) (loop : DemuxLoop α) (st : Stream α) :
    DemuxEvent → Option (DemuxLoop α × Stream α × List (Reply α))
  | .dispatch =>
    match loop with
    | .found p rAddr i =>
      match st.served[i]? with
      | some o =>
        if p.streamID = id then
          if p.type = .connect then some (.read, st, [.ack rAddr id o.peer o.dest])
          else
            let session := o.session.handle rs (pc.session id) p
            let st := st.update i fun _ => session
            if p.type = .reset then some (.reset id, st, [])
            else if session.demux = .idle then some (.read, st, [])
            else some (.handler id i, st, [])
        else none
      | none => none
    | _ => none
  | .finish =>
    match loop with
    | .handler id' i =>
      if id' = id then some (.read, st.update i Session.finishHandler, []) else none
    | _ => none
  | .delete =>
    match loop with
    | .reset id' => if id' = id then some (.read, { st with current := none }, []) else none
    | _ => none

end Stream

namespace Server

variable (rs : ReedSolomon) (pc : PepConfig)

/-- Put back what the loop and one StreamID have become. -/
def set (s : Server α) (id : UInt16) (loop : DemuxLoop α) (st : Stream α) : Server α :=
  { stream := Function.update s.stream id st, loop }

def step (s : Server α) : ServerEvent α → Option (Server α × List (Reply α))
  | .recv rAddr a =>
    match s.loop with
    | .read =>
      match readUDP a with
      | .error _ => some (s, [])
      | .ok p =>
        let r := (s.stream p.streamID).lookup rAddr p
        some (s.set p.streamID r.1 r.2, [])
    | _ => none
  | .demux id e =>
    ((s.stream id).demux rs pc id s.loop e).map fun r => (s.set id r.1 r.2.1, r.2.2)
  | .stream id e =>
    ((s.stream id).step rs pc id e).map fun r => (s.set id s.loop r.1, r.2)

/-- A run, with everything it sends. -/
def run (s : Server α) : List (ServerEvent α) → Option (Server α × List (Reply α))
  | [] => some (s, [])
  | e :: es => (s.step rs pc e).bind fun r => (r.1.run es).map fun r' => (r'.1, r.2 ++ r'.2)

end Server

/-- The machine of one server. -/
def server (rs : ReedSolomon) (pc : PepConfig) : Machine (Server α) (ServerEvent α) where
  init := {}
  step s e := (s.step rs pc e).map Prod.fst

/-! ## What a step can do -/

namespace Server

variable {rs : ReedSolomon} {pc : PepConfig} {s s' : Server α} {e : ServerEvent α}
  {out : List (Reply α)}

/-- A step changes the loop and one StreamID. -/
theorem step_cases (hs : s.step rs pc e = some (s', out)) :
    (∃ rAddr a err, e = .recv rAddr a ∧ readUDP a = .error err ∧ s.loop = .read ∧ s' = s ∧
      out = []) ∨
    (∃ rAddr a p, e = .recv rAddr a ∧ readUDP a = .ok p ∧ s.loop = .read ∧ out = [] ∧
      s' = s.set p.streamID ((s.stream p.streamID).lookup rAddr p).1
      ((s.stream p.streamID).lookup rAddr p).2) ∨
    (∃ id ev loop st, e = .demux id ev ∧
      (s.stream id).demux rs pc id s.loop ev = some (loop, st, out) ∧ s' = s.set id loop st) ∨
    (∃ id ev st, e = .stream id ev ∧ (s.stream id).step rs pc id ev = some (st, out) ∧
      s' = s.set id s.loop st) := by
  cases e with
  | recv rAddr a =>
    simp only [step] at hs
    split at hs
    · rename_i hloop
      split at hs
      · rename_i err hread
        cases hs
        exact Or.inl ⟨rAddr, a, err, rfl, hread, hloop, rfl, rfl⟩
      · rename_i p hread
        cases hs
        exact Or.inr (Or.inl ⟨rAddr, a, p, rfl, hread, hloop, rfl, rfl⟩)
    · cases hs
  | demux id ev =>
    simp only [step, Option.map_eq_some_iff, Prod.exists, Prod.mk.injEq] at hs
    obtain ⟨loop, st, _, hev, rfl, rfl⟩ := hs
    exact Or.inr (Or.inr (Or.inl ⟨id, ev, loop, st, rfl, hev, rfl⟩))
  | stream id ev =>
    simp only [step, Option.map_eq_some_iff, Prod.exists, Prod.mk.injEq] at hs
    obtain ⟨st, _, hev, rfl, rfl⟩ := hs
    exact Or.inr (Or.inr (Or.inr ⟨id, ev, st, rfl, hev, rfl⟩))

end Server

namespace Stream

variable {rs : ReedSolomon} {pc : PepConfig} {id : UInt16} {st st' : Stream α}
  {out : List (Reply α)}

/-- The steps of the demultiplexer on the stream it works for. -/
inductive Handled (rs : ReedSolomon) (pc : PepConfig) (id : UInt16) (st : Stream α) :
    DemuxLoop α → DemuxLoop α → Stream α → List (Reply α) → Prop
  | reack (p : Packet) (rAddr : α) (i : Nat) (o : Served α) (ho : st.served[i]? = some o)
      (hid : p.streamID = id) (ht : p.type = .connect) :
      Handled rs pc id st (.found p rAddr i) .read st [.ack rAddr id o.peer o.dest]
  | handle (p : Packet) (rAddr : α) (i : Nat) (o : Served α) (loop : DemuxLoop α)
      (ho : st.served[i]? = some o) (hid : p.streamID = id) (ht : p.type ≠ .connect)
      (hloop : loop = .read ∨ loop = .handler id i ∨ loop = .reset id) :
      Handled rs pc id st (.found p rAddr i) loop
        (st.update i fun _ => o.session.handle rs (pc.session id) p) []
  | finish (i : Nat) :
      Handled rs pc id st (.handler id i) .read (st.update i Session.finishHandler) []
  | delete : Handled rs pc id st (.reset id) .read { st with current := none } []

theorem demux_handled {loop loop' : DemuxLoop α} {ev : DemuxEvent}
    (h : st.demux rs pc id loop ev = some (loop', st', out)) :
    Handled rs pc id st loop loop' st' out := by
  cases ev with
  | dispatch =>
    simp only [demux] at h
    split at h
    · rename_i p rAddr i
      split at h
      · rename_i o ho
        split at h
        · rename_i hid
          split at h
          · rename_i ht
            cases h
            exact .reack p rAddr i o ho hid ht
          · rename_i ht
            split at h
            · cases h
              exact .handle p rAddr i o _ ho hid ht (Or.inr (Or.inr rfl))
            · split at h
              · cases h
                exact .handle p rAddr i o _ ho hid ht (Or.inl rfl)
              · cases h
                exact .handle p rAddr i o _ ho hid ht (Or.inr (Or.inl rfl))
        · cases h
      · cases h
    · cases h
  | finish =>
    simp only [demux] at h
    split at h
    · simp only [Option.ite_none_right_eq_some, Option.some.injEq, Prod.mk.injEq] at h
      obtain ⟨rfl, rfl, rfl, rfl⟩ := h
      exact .finish _
    · cases h
  | delete =>
    simp only [demux] at h
    split at h
    · simp only [Option.ite_none_right_eq_some, Option.some.injEq, Prod.mk.injEq] at h
      obtain ⟨rfl, rfl, rfl, rfl⟩ := h
      exact .delete
    · cases h

/-- The other steps of one StreamID. -/
inductive Moved (rs : ReedSolomon) (pc : PepConfig) (id : UInt16) (st : Stream α) :
    StreamEvent → Stream α → List (Reply α) → Prop
  | dialOk (k : Nat) (dest : Bytes) (clientAddr : α)
      (hk : st.connects[k]? = some ⟨dest, clientAddr, .dial⟩) :
      Moved rs pc id st (.dialOk k)
        { st with connects := st.connects.set k ⟨dest, clientAddr, .ack⟩ } []
  | dialFail (k : Nat) (msg dest : Bytes) (clientAddr : α)
      (hk : st.connects[k]? = some ⟨dest, clientAddr, .dial⟩) :
      Moved rs pc id st (.dialFail k msg) { st with connects := st.connects.eraseIdx k }
        [.err clientAddr id msg]
  | sendAck (k : Nat) (dest : Bytes) (clientAddr : α)
      (hk : st.connects[k]? = some ⟨dest, clientAddr, .ack⟩) :
      Moved rs pc id st (.sendAck k)
        { st with connects := st.connects.set k ⟨dest, clientAddr, .register⟩ }
        [.ack clientAddr id clientAddr dest]
  | register (k : Nat) (dest : Bytes) (clientAddr : α)
      (hk : st.connects[k]? = some ⟨dest, clientAddr, .register⟩) :
      Moved rs pc id st (.register k)
        { current := some st.closeCurrent.served.length
          served := st.closeCurrent.served ++ [⟨clientAddr, dest, newSession (pc.session id)⟩]
          connects := st.closeCurrent.connects.eraseIdx k } []
  | act (i : Nat) (e : SessionEvent) (o : Served α) (session : Session) (sent : List Bytes)
      (ho : st.served[i]? = some o) (hown : e.isOwn = true)
      (hs : o.session.step rs (pc.session id) e = some (session, sent)) :
      Moved rs pc id st (.act i e) (st.update i fun _ => session) (sent.map (Reply.session o.peer))
  | cleanup (i : Nat) (hi : st.current = some i) :
      Moved rs pc id st .cleanup { st.closeCurrent with current := none } []

theorem step_moved {ev : StreamEvent} (h : st.step rs pc id ev = some (st', out)) :
    Moved rs pc id st ev st' out := by
  cases ev with
  | dialOk k =>
    simp only [step] at h
    split at h
    · rename_i dest clientAddr hk
      cases h
      exact .dialOk k dest clientAddr hk
    · cases h
  | dialFail k msg =>
    simp only [step] at h
    split at h
    · rename_i dest clientAddr hk
      cases h
      exact .dialFail k msg dest clientAddr hk
    · cases h
  | sendAck k =>
    simp only [step] at h
    split at h
    · rename_i dest clientAddr hk
      cases h
      exact .sendAck k dest clientAddr hk
    · cases h
  | register k =>
    simp only [step] at h
    split at h
    · rename_i dest clientAddr hk
      cases h
      exact .register k dest clientAddr hk
    · cases h
  | act i e =>
    simp only [step] at h
    split at h
    · rename_i o ho
      simp only [Option.ite_none_right_eq_some, Option.map_eq_some_iff, Prod.mk.injEq,
        Prod.exists] at h
      obtain ⟨hown, session, sent, hs, rfl, rfl⟩ := h
      exact .act i e o session sent ho hown hs
    · cases h
  | cleanup =>
    simp only [step] at h
    split at h
    · rename_i i hi
      cases h
      exact .cleanup i hi
    · cases h

@[simp] theorem update_current (i : Nat) (f : Session → Session) :
    (st.update i f).current = st.current := rfl

@[simp] theorem update_connects (i : Nat) (f : Session → Session) :
    (st.update i f).connects = st.connects := rfl

@[simp] theorem closeCurrent_connects : st.closeCurrent.connects = st.connects := by
  unfold closeCurrent
  split <;> rfl

@[simp] theorem length_update_served (i : Nat) (f : Session → Session) :
    (st.update i f).served.length = st.served.length := by
  simp [update]

@[simp] theorem length_closeCurrent_served : st.closeCurrent.served.length = st.served.length := by
  unfold closeCurrent
  split
  · simp
  · rfl

/-! ## Properties of all sessions of a StreamID -/

section Served

variable {Q : Nat → Served α → Prop}

theorem served_update {i : Nat} {f : Session → Session} (h : ∀ j o, st.served[j]? = some o → Q j o)
    (hf : ∀ o, st.served[i]? = some o → Q i o → Q i { o with session := f o.session }) :
    ∀ j o, (st.update i f).served[j]? = some o → Q j o := by
  intro j o ho
  simp only [update, List.getElem?_modify, Option.map_eq_map, Option.map_eq_some_iff] at ho
  obtain ⟨o', ho', rfl⟩ := ho
  split
  · rename_i hij
    subst hij
    exact hf o' ho' (h i o' ho')
  · exact h j o' ho'

theorem served_closeCurrent (hclose : ∀ i o, Q i o → Q i { o with session := o.session.close })
    (h : ∀ j o, st.served[j]? = some o → Q j o) : ∀ j o, st.closeCurrent.served[j]? = some o →
    Q j o := by
  unfold closeCurrent
  split
  · exact served_update h fun o _ => hclose _ o
  · exact h

/-- What `Close`, the steps of a session and its registration keep, every step of a
goroutine keeps of all sessions and their positions. -/
theorem Moved.served {ev : StreamEvent} (hm : Moved rs pc id st ev st' out)
    (hclose : ∀ i o, Q i o → Q i { o with session := o.session.close })
    (hact : ∀ i o e session sent, o.session.step rs (pc.session id) e = some (session, sent) →
      e.isOwn = true → Q i o → Q i { o with session })
    (hnew : ∀ c ∈ st.connects,
      Q st.served.length ⟨c.clientAddr, c.dest, newSession (pc.session id)⟩)
    (h : ∀ i o, st.served[i]? = some o → Q i o) : ∀ i o, st'.served[i]? = some o → Q i o := by
  cases hm with
  | dialOk | dialFail | sendAck => exact h
  | register k dest clientAddr hk =>
    intro i o ho
    simp only [List.getElem?_append, length_closeCurrent_served, List.getElem?_singleton] at ho
    split at ho
    · exact served_closeCurrent hclose h i o ho
    · split at ho
      · rename_i hlt hzero
        cases ho
        obtain rfl : i = st.served.length := by omega
        exact hnew _ (List.mem_of_getElem? hk)
      · cases ho
  | act i e o session sent ho hown hs =>
    refine served_update h fun o' ho' hq => ?_
    obtain rfl := Option.some.inj (ho.symm.trans ho')
    exact hact i o e session sent hs hown hq
  | cleanup i hi => exact served_closeCurrent hclose h

/-- What the handlers keep, every step of the demultiplexer keeps of all sessions. -/
theorem Handled.served {loop loop' : DemuxLoop α} (hh : Handled rs pc id st loop loop' st' out)
    (hhandle : ∀ i o p, Q i o → Q i { o with session := o.session.handle rs (pc.session id) p })
    (hfinish : ∀ i o, Q i o → Q i { o with session := o.session.finishHandler })
    (h : ∀ i o, st.served[i]? = some o → Q i o) : ∀ i o, st'.served[i]? = some o → Q i o := by
  cases hh with
  | reack | delete => exact h
  | handle p rAddr i o loop ho hid ht hloop =>
    refine served_update h fun o' ho' hq => ?_
    obtain rfl := Option.some.inj (ho.symm.trans ho')
    exact hhandle i o p hq
  | finish i => exact served_update h fun o _ => hfinish i o

/-- A `handleConnect` keeps its address and its target. -/
theorem Moved.connects {ev : StreamEvent} (hm : Moved rs pc id st ev st' out) {c : Connecting α}
    (hc : c ∈ st'.connects) : ∃ c' ∈ st.connects, c'.dest = c.dest ∧
    c'.clientAddr = c.clientAddr := by
  cases hm with
  | dialOk k dest clientAddr hk | sendAck k dest clientAddr hk =>
    rcases List.mem_or_eq_of_mem_set hc with hc | rfl
    · exact ⟨c, hc, rfl, rfl⟩
    · exact ⟨_, List.mem_of_getElem? hk, rfl, rfl⟩
  | dialFail => exact ⟨c, List.mem_of_mem_eraseIdx hc, rfl, rfl⟩
  | register =>
    simp only [closeCurrent_connects] at hc
    exact ⟨c, List.mem_of_mem_eraseIdx hc, rfl, rfl⟩
  | act => exact ⟨c, hc, rfl, rfl⟩
  | cleanup =>
    simp only [closeCurrent_connects] at hc
    exact ⟨c, hc, rfl, rfl⟩

theorem Handled.connects {loop loop' : DemuxLoop α} (hh : Handled rs pc id st loop loop' st' out) :
    st'.connects = st.connects := by
  cases hh <;> rfl

end Served

end Stream

/-- **Rule.** A property of the single StreamIDs that the look-up of an arriving packet, the
demultiplexer and the goroutines keep is kept by every step. -/
theorem Server.step_stream {rs : ReedSolomon} {pc : PepConfig} {s s' : Server α} {e : ServerEvent α}
    {out : List (Reply α)} {P : UInt16 → Stream α → Prop} (hs : s.step rs pc e = some (s', out))
    (hlookup : ∀ rAddr a p, e = .recv rAddr a → readUDP a = .ok p →
      P p.streamID (s.stream p.streamID) → P p.streamID ((s.stream p.streamID).lookup rAddr p).2)
    (hhandled : ∀ id loop loop' st st' out, Stream.Handled rs pc id st loop loop' st' out →
      P id st → P id st')
    (hmoved : ∀ id ev st st' out, Stream.Moved rs pc id st ev st' out → P id st → P id st')
    (h : ∀ id, P id (s.stream id)) (id : UInt16) : P id (s'.stream id) := by
  have hset : ∀ id' loop st, P id' st → P id ((s.set id' loop st).stream id) := by
    intro id' loop st hst
    by_cases hid : id = id'
    · subst hid
      simpa [Server.set] using hst
    · simpa [Server.set, hid] using h id
  rcases Server.step_cases hs with ⟨rAddr, a, err, rfl, -, -, rfl, rfl⟩ |
    ⟨rAddr, a, p, rfl, hread, -, rfl, rfl⟩ | ⟨id', ev, loop, st, rfl, hev, rfl⟩ | ⟨id', ev, st, rfl,
      hev, rfl⟩
  · exact h id
  · exact hset _ _ _ (hlookup rAddr a p rfl hread (h _))
  · exact hset _ _ _ (hhandled _ _ _ _ _ _ (Stream.demux_handled hev) (h id'))
  · exact hset _ _ _ (hmoved _ _ _ _ _ (Stream.step_moved hev) (h id'))

end TcpPep
