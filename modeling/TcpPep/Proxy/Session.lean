import TcpPep.Proxy.Receiver

/-!
One session: `proxy/session.go`.

A `Session` is its two halves, the context, and where `Start` and the
demultiplexer's current handler stand. `Session.step` is one step of one of its
goroutines or of the demultiplexer that delivers packets to it, together with
the datagrams it sends to the peer.
-/

namespace TcpPep

open Protocol Fec FiniteMap

/-- The unlocked remainder of a handler the demultiplexer is running. -/
inductive Demux where
  | idle
  /-- `HandleNak` has taken a packet from the cache and not enqueued it yet -/
  | retransmit (p : Packet)
  /-- `HandleClose` has set `closeRecv` -/
  | closing (bothClosed : Bool)
  deriving DecidableEq

/-- What a demultiplexer makes of a datagram: its read buffer has 2048 bytes. -/
def readUDP (a : Bytes) : Except HeaderError Packet := unmarshal (a.take 2048)

structure Session where
  tx : Sender
  rx : Receiver
  demux : Demux := .idle
  /-- the context is cancelled -/
  cancelled : Bool := false
  /-- `Start` has launched the goroutines -/
  launched : Bool := false
  /-- `Start` has set up group 0 -/
  started : Bool := false

def newSession (cfg : Config) : Session := { tx := newSender cfg, rx := {} }

inductive SessionEvent where
  /-- the three `go` statements of `Start` -/
  | launch
  /-- the rest of `Start` -/
  | start
  | tx (e : TxEvent)
  | rx (e : RxEvent)
  /-- the demultiplexer hands over a packet -/
  | recv (p : Packet)
  /-- the demultiplexer finishes the handler it is running -/
  | finishHandler
  /-- `Close` is called from outside the session -/
  | cancel
  deriving DecidableEq

namespace Session

variable (rs : ReedSolomon) (cfg : Config)

/-- `Close`: cancel the context, stop the shaper and the block timer. -/
def close (s : Session) : Session :=
  { s with
    cancelled := true
    tx := { s.tx with
            shaper := s.tx.shaper.stop
            blockTimer := if s.tx.blockTimer = BlockTimer.armed then .unset else s.tx.blockTimer } }

/-- Install what a step of the sending half did. -/
def applyTx (s : Session) (eff : Effect Sender) : Session × List Bytes :=
  let s := { s with tx := eff.state }
  (if eff.close then s.close else s, eff.out)

/-- Install what a step of the receiving half did. -/
def applyRx (s : Session) (eff : Effect Receiver) : Session × List Bytes :=
  ({ s with rx := eff.state }, eff.out)

/-- The locked part of the handler for a packet. -/
def handle (s : Session) (p : Packet) : Session :=
  match p.type with
  | .data => { s with rx := s.rx.handleDataPacket rs cfg p }
  | .nak =>
    match s.tx.handleNak p with
    | some cached => { s with demux := .retransmit cached }
    | none => s
  | .lqr => { s with tx := s.tx.handleLQR cfg p }
  | .close => { s with tx := { s.tx with closeRecv := true }, demux := .closing s.tx.closeSent }
  | .reset => s.close
  | _ => s

/-- The rest of a handler: `HandleNak` enqueues, `HandleClose` may tear down. -/
def finishHandler (s : Session) : Session :=
  match s.demux with
  | .idle => s
  | .retransmit p =>
    let queued := (sendPacketDirect p).foldl Shaper.enqueue s.tx.shaper
    { s with tx := { s.tx with shaper := queued }, demux := .idle }
  | .closing bothClosed =>
    let s := { s with demux := .idle }
    if bothClosed then s.close else s

def step (s : Session) : SessionEvent → Option (Session × List Bytes)
  | .launch =>
    if s.launched then none
    else some ({ s with launched := true
                        tx := { s.tx with reader := .check }
                        rx := { s.rx with writer := .wait } }, [])
  | .start =>
    if s.launched && !s.started then
      some ({ s with started := true, rx := Receiver.startInit cfg s.rx }, [])
    else none
  | .tx e =>
    -- block timers and goroutines exist only after the launch
    if s.launched then (s.tx.step rs cfg s.cancelled e).map s.applyTx else none
  | .rx e => (s.rx.step cfg s.cancelled s.tx.closeRecv e).map s.applyRx
  | .recv p => if s.demux = .idle then some (s.handle rs cfg p, []) else none
  | .finishHandler => if s.demux = .idle then none else some (s.finishHandler, [])
  | .cancel => some (s.close, [])

/-- The steps of a session with what guards them and what they do. -/
inductive Stepped (s : Session) : SessionEvent → Session → List Bytes → Prop
  | launch (hl : s.launched = false) :
      Stepped s .launch { s with launched := true, tx := { s.tx with reader := .check }
                                 rx := { s.rx with writer := .wait } } []
  | start (hl : s.launched = true) (hst : s.started = false) :
      Stepped s .start { s with started := true, rx := Receiver.startInit cfg s.rx } []
  | tx (e : TxEvent) (eff : Effect Sender) (hl : s.launched = true) (hclose : eff.close = false)
      (heff : Sender.Stepped rs cfg s.cancelled s.tx e eff) :
        Stepped s (.tx e) { s with tx := eff.state } eff.out
  | txClose (e : TxEvent) (eff : Effect Sender) (hl : s.launched = true) (hclose : eff.close = true)
      (heff : Sender.Stepped rs cfg s.cancelled s.tx e eff) :
      Stepped s (.tx e) (Session.close { s with tx := eff.state }) eff.out
  | rx (e : RxEvent) (eff : Effect Receiver)
      (heff : s.rx.step cfg s.cancelled s.tx.closeRecv e = some eff) :
      Stepped s (.rx e) { s with rx := eff.state } eff.out
  | recv (p : Packet) (hd : s.demux = .idle) : Stepped s (.recv p) (s.handle rs cfg p) []
  | finishHandler (hd : s.demux ≠ .idle) : Stepped s .finishHandler s.finishHandler []
  | cancel : Stepped s .cancel s.close []

variable {rs cfg}

theorem stepped_of_step {s s' : Session} {e : SessionEvent} {out : List Bytes}
    (hs : s.step rs cfg e = some (s', out)) : Stepped rs cfg s e s' out := by
  cases e with
  | launch =>
    simp only [step, Option.ite_none_left_eq_some, Option.some.injEq, Prod.mk.injEq] at hs
    obtain ⟨hl, rfl, rfl⟩ := hs
    exact .launch (by simpa using hl)
  | start =>
    simp only [step, Option.ite_none_right_eq_some, Option.some.injEq, Prod.mk.injEq,
      Bool.and_eq_true, Bool.not_eq_true'] at hs
    obtain ⟨⟨hl, hst⟩, rfl, rfl⟩ := hs
    exact .start hl hst
  | tx e =>
    simp only [step, Option.ite_none_right_eq_some, Option.map_eq_some_iff] at hs
    obtain ⟨hl, eff, heff, happ⟩ := hs
    simp only [applyTx, Prod.mk.injEq] at happ
    obtain ⟨rfl, rfl⟩ := happ
    split
    · rename_i hc
      exact .txClose e eff hl hc (Sender.stepped_of_step heff)
    · rename_i hc
      exact .tx e eff hl (by simpa using hc) (Sender.stepped_of_step heff)
  | rx e =>
    simp only [step, Option.map_eq_some_iff] at hs
    obtain ⟨eff, heff, happ⟩ := hs
    simp only [applyRx, Prod.mk.injEq] at happ
    obtain ⟨rfl, rfl⟩ := happ
    exact .rx e eff heff
  | recv p =>
    simp only [step, Option.ite_none_right_eq_some, Option.some.injEq, Prod.mk.injEq] at hs
    obtain ⟨hd, rfl, rfl⟩ := hs
    exact .recv p hd
  | finishHandler =>
    simp only [step, Option.ite_none_left_eq_some, Option.some.injEq, Prod.mk.injEq] at hs
    obtain ⟨hd, rfl, rfl⟩ := hs
    exact .finishHandler hd
  | cancel =>
    simp only [step, Option.some.injEq, Prod.mk.injEq] at hs
    obtain ⟨rfl, rfl⟩ := hs
    exact .cancel

end Session

end TcpPep
