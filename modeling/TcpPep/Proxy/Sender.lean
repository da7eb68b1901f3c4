import TcpPep.Fec.Fec
import TcpPep.Lib.Table
import TcpPep.Shaper.Shaper

/-!
The sending half of a session (TCP to UDP): `proxy/session.go`.

`Sender` holds the fields under `muSend`, the shaper, and where the goroutines
of this half stand: `readTCPRun` with its deferred end-of-stream part, the
block timers, the shaper's `Run` and the CLOSE goroutine. `Sender.step` is one
lock-protected section of one of them, with the datagrams it writes to the UDP
socket. `tcpIn` is what has been read from the TCP connection; `sent` is a
history variable, one entry for each `flushPendingBlockLocked` that took a
GroupID. No step reads either.
-/

namespace TcpPep

open Protocol Fec FiniteMap

/-- The parameters of a session that its logic reads. -/
structure Config where
  streamID : UInt16
  linkMTU : Nat
  bandwidth : Nat
  fecK : Nat
  fecM : Nat
  deriving DecidableEq

structure TxBlock where
  groupID : UInt16
  m : Nat
  lqrRecved : Bool := false
  deriving DecidableEq

/-- The `blockTimer` pointer: unset, a running timer, or one whose callback has
already been started. -/
inductive BlockTimer where
  | unset
  | armed
  | fired
  deriving DecidableEq

/-- Where `readTCPRun` stands: before the back-pressure test, in `Conn.Read`, or
in one of the waits of its deferred function. -/
inductive Reader where
  | idle
  | check
  | read
  | finFlush
  | finDrain
  | finAck
  | returned
  deriving DecidableEq

/-- Where the CLOSE goroutine stands. -/
inductive Closer where
  | idle
  | first
  | mark
  | finish (bothClosed : Bool)
  | loop
  | returned
  deriving DecidableEq

/-- What one flush put into its block: the data shards with their padding, the
parity count, and the parity shards, or `none` when `FEC.Encode` failed and
nothing was sent. -/
structure Block where
  data : List Bytes
  m : Nat
  parity : Option (List Bytes)
  deriving DecidableEq

structure Sender where
  curM : Nat
  nextGroupID : UInt16 := 0
  nextSeqNum : UInt8 := 0
  pendingData : List Bytes := []
  blockTimer : BlockTimer := .unset
  txBlocks : Table UInt16 TxBlock := ∅
  harqCache : Table UInt8 Packet := ∅
  consecutiveOk : Nat := 0
  sendClosed : Bool := false
  closeSent : Bool := false
  closeRecv : Bool := false
  shaper : Shaper
  run : RunState := .wait
  reader : Reader := .idle
  closer : Closer := .idle
  /-- running timers that `blockTimer` no longer points to -/
  looseTimers : Nat := 0
  /-- started timer callbacks that wait for `muSend` -/
  callbacks : Nat := 0
  tcpIn : Bytes := []
  sent : List Block := []

/-- The burst interval in milliseconds for `pkts` packets, in exact arithmetic. -/
def burstInterval (cfg : Config) (pkts : Nat) : Nat :=
  if cfg.bandwidth > 0 then pkts * cfg.linkMTU * 8 * 1000 / cfg.bandwidth else 0

/-- The sending half of `NewSession`. -/
def newSender (cfg : Config) : Sender :=
  { curM := cfg.fecM
    shaper := newShaper (cfg.fecK + cfg.fecM) (burstInterval cfg (cfg.fecK + cfg.fecM)) }

/-- The largest read: the link MTU less IP, UDP and DATA headers and the length
prefix, with the fallback of 512. -/
def maxPayload (cfg : Config) : Nat := if cfg.linkMTU ≤ 36 then 512 else cfg.linkMTU - 36

/-- `sendPacketDirect`: nothing is sent when `Marshal` fails. -/
def sendPacketDirect (p : Packet) : List Bytes :=
  match marshal p with
  | .ok buf => [buf]
  | .error _ => []

/-- The shard made of one read: a two-byte length and the data. -/
def frame (data : Bytes) : Bytes := putUint16 (UInt16.ofNat data.length) ++ data

/-- The DATA packet of data shard `i`. -/
def dataPacket (cfg : Config) (grpID : UInt16) (seqNum : UInt8) (i : Nat) (payload : Bytes) :
    Packet :=
  { type := .data, streamID := cfg.streamID, seqNum, groupID := grpID, idx := UInt8.ofNat i,
    payload }

/-- The DATA packet of parity shard `j`. -/
def parityPacket (cfg : Config) (grpID : UInt16) (j : Nat) (payload : Bytes) : Packet :=
  { type := .data, streamID := cfg.streamID, groupID := grpID, idx := UInt8.ofNat (cfg.fecK + j),
    isParity := true, payload }

/-- The packets of one block, data before parity. -/
def dataPackets (cfg : Config) (grpID : UInt16) (seqNum : UInt8) (pending : List Bytes) :
    List Packet :=
  (List.range cfg.fecK).map fun i =>
    dataPacket cfg grpID (seqNum + UInt8.ofNat i) i (pending.getD i [])

def parityPackets (cfg : Config) (grpID : UInt16) (curM : Nat) (parityShards : List Bytes) :
    List Packet :=
  (List.range curM).map fun j => parityPacket cfg grpID j (parityShards.getD j [])

/-- The `txBlocks` entries that a flush of `grpID` evicts. -/
def stale (grpID id : UInt16) : Bool := decide (grpID - id > 100) && decide (grpID - id < 60000)

namespace Sender

variable (rs : ReedSolomon) (cfg : Config)

/-- The pending shards with the padding shards that fill up the block. -/
def paddedPending (s : Sender) : List Bytes :=
  s.pendingData ++ List.replicate (cfg.fecK - s.pendingData.length) [0, 0]

def flushPendingBlockLocked (s : Sender) : Sender :=
  if s.pendingData.isEmpty then s
  else
    let pending := s.paddedPending cfg
    let grpID := s.nextGroupID
    match Fec.encode rs cfg.fecK s.curM pending with
    | none =>
      { s with
        nextGroupID := grpID + 1, pendingData := [], sent := s.sent ++ [⟨pending, s.curM, none⟩] }
    | some parityShards =>
      let dataPkts := dataPackets cfg grpID s.nextSeqNum pending
      let parityPkts := parityPackets cfg grpID s.curM parityShards
      let packetsToSend := (dataPkts ++ parityPkts).flatMap sendPacketDirect
      let kept := eraseAll s.txBlocks (s.txBlocks.keys.filter (stale grpID))
      { s with
        nextGroupID := grpID + 1
        nextSeqNum := s.nextSeqNum + UInt8.ofNat cfg.fecK
        harqCache := dataPkts.foldl (fun cache p => cache.insert p.seqNum p) s.harqCache
        txBlocks := kept.insert grpID { groupID := grpID, m := s.curM }
        shaper := s.shaper.enqueueMany packetsToSend
        pendingData := []
        sent := s.sent ++ [⟨pending, s.curM, some parityShards⟩] }

/-- `time.AfterFunc(BlockFlushTimeout, …)`: a timer that still runs is replaced,
not stopped. -/
def startBlockTimer (s : Sender) : Sender :=
  { s with
    blockTimer := .armed
    looseTimers := if s.blockTimer = .armed then s.looseTimers + 1 else s.looseTimers }

/-- The locked section of `readTCPRun` after `Conn.Read` returned `data`. -/
def readTCP (s : Sender) (data : Bytes) : Sender :=
  let s := { s with tcpIn := s.tcpIn ++ data, pendingData := s.pendingData ++ [frame data] }
  let s := if s.pendingData.length = 1 then s.startBlockTimer else s
  if s.pendingData.length ≥ cfg.fecK then
    flushPendingBlockLocked rs cfg { s with blockTimer := .unset }
  else s

def updateShaperParams (s : Sender) : Sender :=
  { s with
    shaper := s.shaper.updateParams (cfg.fecK + s.curM) (burstInterval cfg (cfg.fecK + s.curM)) }

def handleLQR (s : Sender) (p : Packet) : Sender :=
  match s.txBlocks.lookup p.groupID with
  | none => s
  | some block =>
    if block.lqrRecved then s
    else
      let s :=
        if p.losses = 0 then
          let s := { s with consecutiveOk := s.consecutiveOk + 1 }
          if s.consecutiveOk ≥ 5 then
            let s := if s.curM > 0 then updateShaperParams cfg { s with curM := s.curM - 1 } else s
            { s with consecutiveOk := 0 }
          else s
        else
          let s := { s with consecutiveOk := 0 }
          let newM := if p.losses.toNat + 1 > cfg.fecM then cfg.fecM else p.losses.toNat + 1
          if s.curM < newM then updateShaperParams cfg { s with curM := newM } else s
      { s with txBlocks := s.txBlocks.erase p.groupID }

/-- The locked part of `HandleNak`: the cached packet, if there is one. -/
def handleNak (s : Sender) (p : Packet) : Option Packet := s.harqCache.lookup p.seqNum

/-- The end-of-stream wait is over when every block still listed has its LQR. -/
def allAcked (s : Sender) : Bool := s.txBlocks.entries.all fun e => e.2.lqrRecved

def closePacket : Packet := { type := .close, streamID := cfg.streamID }

def resetPacket : Packet := { type := .reset, streamID := cfg.streamID }

end Sender

/-- The steps of the goroutines of the sending half. -/
inductive TxEvent where
  /-- the back-pressure test of `readTCPRun` passes -/
  | check
  /-- `Conn.Read` returns data -/
  | read (data : Bytes)
  /-- `Conn.Read` returns `io.EOF` -/
  | eof
  /-- `Conn.Read` fails otherwise -/
  | readError
  | finFlush
  | finDrain
  /-- the LQR wait ends because every block is acknowledged -/
  | finAcked
  /-- the LQR wait gives up after three seconds -/
  | finTimeout
  /-- the reader or its deferred function sees the context cancelled -/
  | readerQuit
  /-- the timer `blockTimer` points to expires -/
  | timerFire
  /-- a replaced timer expires -/
  | looseFire
  /-- a waiting callback runs `flushPendingBlock` -/
  | timerRun
  | shaper (e : RunEvent)
  | closeSend
  | closeMark
  | closeFinish
  | closeTick
  | closeQuit
  deriving DecidableEq

/-- The result of a step of one half: the new state, the datagrams written to
the UDP socket, and whether it called `Session.Close`. -/
structure Effect (σ : Type) where
  state : σ
  out : List Bytes := []
  close : Bool := false

/-- Whether the goroutine may leave through a cancelled context here. -/
def Reader.quits : Reader → Bool
  | .check | .finFlush | .finDrain | .finAck => true
  | _ => false

namespace Sender

variable (rs : ReedSolomon) (cfg : Config)

/-- One step of the sending half; `done` is whether the context is cancelled. -/
def step (done : Bool) (s : Sender) : TxEvent → Option (Effect Sender)
  | .check =>
    if s.reader = .check && !done && decide (s.shaper.queueLen ≤ 10) then
      some { state := { s with reader := .read } }
    else none
  | .read data =>
    if s.reader = .read && !data.isEmpty && decide (data.length ≤ maxPayload cfg) then
      some { state := { readTCP rs cfg s data with reader := .check } }
    else none
  | .eof =>
    if s.reader = .read then some { state := { s with sendClosed := true, reader := .finFlush } }
    else none
  | .readError =>
    if s.reader = .read then
      some { state := { s with sendClosed := true, reader := .returned }
             out := (List.replicate 5 (resetPacket cfg)).flatMap sendPacketDirect
             close := true }
    else none
  | .finFlush =>
    if s.reader = .finFlush && !done then
      some { state := { flushPendingBlockLocked rs cfg s with reader := .finDrain } }
    else none
  | .finDrain =>
    if s.reader = .finDrain && s.shaper.queue.isEmpty then
      some { state := { s with reader := .finAck } }
    else none
  | .finAcked =>
    if s.reader = .finAck && s.allAcked then
      some { state := { s with reader := .returned, closer := .first } }
    else none
  | .finTimeout =>
    if s.reader = .finAck then some { state := { s with reader := .returned, closer := .first } }
    else none
  | .readerQuit =>
    if s.reader.quits && done then
      some { state := { s with sendClosed := true, reader := .returned } }
    else none
  | .timerFire =>
    if s.blockTimer = .armed then
      some { state := { s with blockTimer := .fired, callbacks := s.callbacks + 1 } }
    else none
  | .looseFire =>
    if s.looseTimers > 0 then
      some { state := { s with looseTimers := s.looseTimers - 1, callbacks := s.callbacks + 1 } }
    else none
  | .timerRun =>
    if s.callbacks > 0 then
      some { state := flushPendingBlockLocked rs cfg { s with callbacks := s.callbacks - 1 } }
    else none
  | .shaper e =>
    match s.shaper.runStep done s.run e with
    | none => none
    | some (shaper, run, out) => some { state := { s with shaper, run }, out }
  | .closeSend =>
    if s.closer = .first then
      some { state := { s with closer := .mark }, out := sendPacketDirect (closePacket cfg) }
    else none
  | .closeMark =>
    if s.closer = .mark then
      some { state := { s with closeSent := true, closer := .finish s.closeRecv } }
    else none
  | .closeFinish =>
    match s.closer with
    | .finish true => some { state := { s with closer := .returned }, close := true }
    | .finish false => some { state := { s with closer := .loop } }
    | _ => none
  | .closeTick =>
    if s.closer = .loop then
      if s.closeRecv then some { state := { s with closer := .returned } }
      else some { state := s, out := sendPacketDirect (closePacket cfg) }
    else none
  | .closeQuit =>
    if s.closer = .loop && done then some { state := { s with closer := .returned } } else none

/-- The steps of the sending half with what guards them and what they do. -/
inductive Stepped (done : Bool) (s : Sender) : TxEvent → Effect Sender → Prop
  | check (hr : s.reader = .check) (hd : done = false) (hq : s.shaper.queueLen ≤ 10) :
      Stepped done s .check { state := { s with reader := .read } }
  | read (data : Bytes) (hr : s.reader = .read) (hne : data ≠ [])
      (hle : data.length ≤ maxPayload cfg) :
      Stepped done s (.read data) { state := { readTCP rs cfg s data with reader := .check } }
  | eof (hr : s.reader = .read) :
      Stepped done s .eof { state := { s with sendClosed := true, reader := .finFlush } }
  | readError (hr : s.reader = .read) :
      Stepped done s .readError
        { state := { s with sendClosed := true, reader := .returned }
          out := (List.replicate 5 (resetPacket cfg)).flatMap sendPacketDirect
          close := true }
  | finFlush (hr : s.reader = .finFlush) (hd : done = false) :
      Stepped done s .finFlush
        { state := { flushPendingBlockLocked rs cfg s with reader := .finDrain } }
  | finDrain (hr : s.reader = .finDrain) (hq : s.shaper.queue = []) :
      Stepped done s .finDrain { state := { s with reader := .finAck } }
  | finAcked (hr : s.reader = .finAck) (ha : s.allAcked = true) :
      Stepped done s .finAcked { state := { s with reader := .returned, closer := .first } }
  | finTimeout (hr : s.reader = .finAck) :
      Stepped done s .finTimeout { state := { s with reader := .returned, closer := .first } }
  | readerQuit (hq : s.reader.quits = true) (hd : done = true) :
      Stepped done s .readerQuit { state := { s with sendClosed := true, reader := .returned } }
  | timerFire (ht : s.blockTimer = .armed) :
      Stepped done s .timerFire
        { state := { s with blockTimer := .fired, callbacks := s.callbacks + 1 } }
  | looseFire (ht : 0 < s.looseTimers) :
      Stepped done s .looseFire
        { state := { s with looseTimers := s.looseTimers - 1, callbacks := s.callbacks + 1 } }
  | timerRun (hc : 0 < s.callbacks) :
      Stepped done s .timerRun
        { state := flushPendingBlockLocked rs cfg { s with callbacks := s.callbacks - 1 } }
  | shaper (e : RunEvent) (shaper : Shaper) (run : RunState) (out : List Bytes)
      (hrun : s.shaper.runStep done s.run e = some (shaper, run, out)) :
      Stepped done s (.shaper e) { state := { s with shaper, run }, out }
  | closeSend (hc : s.closer = .first) :
      Stepped done s .closeSend
        { state := { s with closer := .mark }, out := sendPacketDirect (closePacket cfg) }
  | closeMark (hc : s.closer = .mark) :
      Stepped done s .closeMark
        { state := { s with closeSent := true, closer := .finish s.closeRecv } }
  | closeBoth (hc : s.closer = .finish true) :
      Stepped done s .closeFinish { state := { s with closer := .returned }, close := true }
  | closeLoop (hc : s.closer = .finish false) :
      Stepped done s .closeFinish { state := { s with closer := .loop } }
  | closeAnswered (hc : s.closer = .loop) (hr : s.closeRecv = true) :
      Stepped done s .closeTick { state := { s with closer := .returned } }
  | closeAgain (hc : s.closer = .loop) (hr : s.closeRecv = false) :
      Stepped done s .closeTick { state := s, out := sendPacketDirect (closePacket cfg) }
  | closeQuit (hc : s.closer = .loop) (hd : done = true) :
      Stepped done s .closeQuit { state := { s with closer := .returned } }

variable {rs cfg}

theorem stepped_of_step {done : Bool} {s : Sender} {e : TxEvent} {eff : Effect Sender}
    (h : s.step rs cfg done e = some eff) : Stepped rs cfg done s e eff := by
  cases e with
  | shaper e =>
    simp only [step] at h
    split at h
    · cases h
    · rename_i hrun
      cases h
      exact .shaper e _ _ _ hrun
  | closeFinish =>
    simp only [step] at h
    split at h
    · rename_i hc
      cases h
      exact .closeBoth hc
    · rename_i hc
      cases h
      exact .closeLoop hc
    · cases h
  | closeTick =>
    simp only [step, Option.ite_none_right_eq_some] at h
    obtain ⟨hc, h⟩ := h
    split at h
    · rename_i hr
      cases h
      exact .closeAnswered hc hr
    · rename_i hr
      cases h
      exact .closeAgain hc (by simpa using hr)
  | check =>
    simp only [step, Option.ite_none_right_eq_some, Option.some.injEq, Bool.and_eq_true,
      decide_eq_true_eq, Bool.not_eq_true'] at h
    obtain ⟨⟨⟨hr, hd⟩, hq⟩, rfl⟩ := h
    exact .check hr hd hq
  | read data =>
    simp only [step, Option.ite_none_right_eq_some, Option.some.injEq, Bool.and_eq_true,
      decide_eq_true_eq, Bool.not_eq_true', List.isEmpty_eq_false_iff] at h
    obtain ⟨⟨⟨hr, hne⟩, hle⟩, rfl⟩ := h
    exact .read data hr hne hle
  | finFlush =>
    simp only [step, Option.ite_none_right_eq_some, Option.some.injEq, Bool.and_eq_true,
      decide_eq_true_eq, Bool.not_eq_true'] at h
    obtain ⟨⟨hr, hd⟩, rfl⟩ := h
    exact .finFlush hr hd
  | finDrain =>
    simp only [step, Option.ite_none_right_eq_some, Option.some.injEq, Bool.and_eq_true,
      decide_eq_true_eq, List.isEmpty_iff] at h
    obtain ⟨⟨hr, hq⟩, rfl⟩ := h
    exact .finDrain hr hq
  | finAcked =>
    simp only [step, Option.ite_none_right_eq_some, Option.some.injEq, Bool.and_eq_true,
      decide_eq_true_eq] at h
    obtain ⟨⟨hr, ha⟩, rfl⟩ := h
    exact .finAcked hr ha
  | readerQuit =>
    simp only [step, Option.ite_none_right_eq_some, Option.some.injEq, Bool.and_eq_true] at h
    obtain ⟨⟨hq, hd⟩, rfl⟩ := h
    exact .readerQuit hq hd
  | closeQuit =>
    simp only [step, Option.ite_none_right_eq_some, Option.some.injEq, Bool.and_eq_true,
      decide_eq_true_eq] at h
    obtain ⟨⟨hc, hd⟩, rfl⟩ := h
    exact .closeQuit hc hd
  | _ =>
    simp only [step, Option.ite_none_right_eq_some, Option.some.injEq] at h
    obtain ⟨hg, rfl⟩ := h
    constructor
    exact hg

end Sender

end TcpPep
