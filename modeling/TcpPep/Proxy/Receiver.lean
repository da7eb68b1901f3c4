import TcpPep.Proxy.Sender

/-!
The receiving half of a session (UDP to TCP): `proxy/session.go`.

`Receiver` holds the fields under `muRecv` and where the goroutines of this
half stand: the writer `writeTCPRun`, the LQR timers and the periodic NAK
checks. The writer's `block` pointer is the entry of `rxBlocks` under
`nextWriteGrp`: only the writer removes entries, and an entry that exists is
never replaced. `tcpOut` is what has been written to the TCP connection and
`written` counts the blocks the writer is done with; no step reads either.
-/

namespace TcpPep

open Protocol Fec FiniteMap

/-- The LQR timer of a block. -/
inductive LqrTimer where
  | armed
  | fired
  | stopped
  deriving DecidableEq

structure RxBlock where
  groupID : UInt16
  k : Nat
  m : Nat
  packets : List (Option Bytes)
  seqNums : List UInt8
  receivedCnt : Nat := 0
  lqrTimer : LqrTimer := .armed
  lqrReported : Bool := false
  decoded : Bool := false
  deriving DecidableEq

/-- How `writeTCPRun` left its loop. -/
inductive Leave where
  | closeRecv
  | cancelled
  | writeError
  deriving DecidableEq

/-- Where `writeTCPRun` stands. -/
inductive Writer where
  | idle
  | wait
  | write (i : Nat)
  | cleanup
  | report
  | finish
  | leave (why : Leave)
  | returned (why : Leave)
  deriving DecidableEq

structure Receiver where
  nextWriteGrp : UInt16 := 0
  rxBlocks : Table UInt16 RxBlock := ∅
  recvClosed : Bool := false
  maxRecvGrp : UInt16 := 0
  hasRecv : Bool := false
  writer : Writer := .idle
  /-- started LQR callbacks that wait for `muRecv` -/
  lqrCallbacks : List UInt16 := []
  /-- scheduled `sendNakPeriodic` calls -/
  nakChecks : List UInt16 := []
  /-- `CloseWrite` has been called -/
  halfClosed : Bool := false
  tcpOut : Bytes := []
  written : Nat := 0

/-- The test `diff := a - b; diff > 0 && diff < 32768` on group numbers. -/
def after (a b : UInt16) : Bool := decide (a - b > 0) && decide (a - b < 32768)

/-- A fresh block with the sequence numbers computed from its group. -/
def newRxBlock (cfg : Config) (grpID : UInt16) : RxBlock :=
  let firstSeq := (grpID.toNat * cfg.fecK) % 256
  { groupID := grpID
    k := cfg.fecK
    m := cfg.fecM
    packets := List.replicate (cfg.fecK + cfg.fecM) none
    seqNums := (List.range cfg.fecK).map fun i => UInt8.ofNat ((firstSeq + i) % 256) }

/-- The block `Start` creates for group 0. -/
def startRxBlock (cfg : Config) : RxBlock :=
  { groupID := 0
    k := cfg.fecK
    m := cfg.fecM
    packets := List.replicate (cfg.fecK + cfg.fecM) none
    seqNums := (List.range cfg.fecK).map fun i => UInt8.ofNat (i % 256) }

namespace RxBlock

/-- Slot `i`; a slot outside the slice reads as nil. -/
def slot (b : RxBlock) (i : Nat) : Option Bytes := b.packets.getD i none

/-- Put a payload into its slot, growing the slice for an index beyond it. -/
def store (b : RxBlock) (idx : Nat) (payload : Bytes) : RxBlock :=
  let b :=
    if idx ≥ b.packets.length then
      { b with
        packets := b.packets ++ List.replicate (idx + 1 - b.packets.length) none
        m := idx + 1 - b.k }
    else b
  match b.slot idx with
  | some _ => b
  | none => { b with packets := b.packets.set idx (some payload), receivedCnt := b.receivedCnt + 1 }

/-- Number of data shards present. -/
def dataOk (b : RxBlock) : Nat := (List.range b.k).countP fun i => (b.slot i).isSome

/-- The shards handed to the decoder: what is there, padded to one length. -/
def decodeShards (b : RxBlock) (len : Nat) : List (Option Bytes) :=
  b.packets.map fun p =>
    match p with
    | none => none
    | some p => if p.length < len then some (padded len p) else some p

def tryDecodeBlock (rs : ReedSolomon) (b : RxBlock) : RxBlock :=
  if b.dataOk = b.k then { b with decoded := true }
  else
    let len := maxLen (b.packets.filterMap id)
    if len = 0 then b
    else
      match Fec.reconstruct rs b.k (b.packets.length - b.k) (b.decodeShards len) with
      | none => b
      | some shards =>
        { b with
          packets := (List.range b.packets.length).map fun i =>
            if i < b.k && (b.slot i).isNone then shards.getD i none else b.slot i
          decoded := true }

/-- The shards of a block a packet goes into, then the decoder if it is due. -/
def receive (rs : ReedSolomon) (b : RxBlock) (p : Packet) : RxBlock :=
  let b := b.store p.idx.toNat p.payload
  if b.receivedCnt ≥ b.k && !b.decoded then b.tryDecodeBlock rs else b

/-- What `handleLQRTimeout` reports as lost. -/
def losses (b : RxBlock) : Nat :=
  -- the last slot in use, plus one; zero when there is none
  let used :=
    (List.range b.packets.length).foldl (fun u i => if (b.slot i).isSome then i + 1 else u) 0
  let expectedTotal := if used > b.k then used else b.k
  min 255 (expectedTotal - b.receivedCnt)

/-- The data indices a NAK step asks for. -/
def missing (b : RxBlock) : List Nat := (List.range b.k).filter fun i => (b.slot i).isNone

end RxBlock

/-- The bytes the writer takes out of a slot. -/
def extract (slot : Option Bytes) : Bytes :=
  match slot with
  | some (hi :: lo :: rest) =>
    let dataLen := (uint16 hi lo).toNat
    if dataLen > 0 ∧ 2 + dataLen ≤ rest.length + 2 then rest.take dataLen else []
  | _ => []

/-- The steps of the goroutines of the receiving half. -/
inductive RxEvent where
  /-- the LQR timer of a group expires -/
  | lqrFire (g : UInt16)
  /-- a waiting LQR callback runs `handleLQRTimeout` -/
  | lqrRun (g : UInt16)
  /-- `sendNakPeriodic` runs -/
  | nakRun (g : UInt16)
  /-- the writer's wait loop tests its conditions -/
  | wait
  /-- the writer handles one slot of its block -/
  | slot
  /-- `Conn.Write` fails after `n` bytes -/
  | slotError (n : Nat)
  | cleanup
  | report
  | finish
  /-- the writer's deferred function -/
  | leave
  deriving DecidableEq

namespace Receiver

variable (rs : ReedSolomon) (cfg : Config)

/-- The bookkeeping of the highest group seen. -/
def noteGroup (r : Receiver) (grpID : UInt16) : Receiver :=
  if !r.hasRecv then { r with maxRecvGrp := grpID, hasRecv := true }
  else if after grpID r.maxRecvGrp then { r with maxRecvGrp := grpID }
  else r

def handleDataPacket (r : Receiver) (p : Packet) : Receiver :=
  if r.recvClosed then r
  else
    let r := r.noteGroup p.groupID
    if after r.nextWriteGrp p.groupID then r
    else
      let rxBlock := (r.rxBlocks.lookup p.groupID).getD (newRxBlock cfg p.groupID)
      { r with rxBlocks := r.rxBlocks.insert p.groupID (rxBlock.receive rs p) }

/-- The group-0 part of `Start`. -/
def startInit (r : Receiver) : Receiver :=
  if isEmpty r.rxBlocks then { r with rxBlocks := r.rxBlocks.insert 0 (startRxBlock cfg) } else r

def lqrPacket (grpID : UInt16) (losses : Nat) : Packet :=
  { type := .lqr, streamID := cfg.streamID, groupID := grpID, losses := UInt8.ofNat losses }

def nakPacket (seqNum : UInt8) : Packet :=
  { type := .nak, streamID := cfg.streamID, seqNum }

/-- `handleLQRTimeout`: report a block once and schedule its first NAK check. -/
def handleLQRTimeout (r : Receiver) (grpID : UInt16) : Effect Receiver :=
  match r.rxBlocks.lookup grpID with
  | none => { state := r }
  | some b =>
    if b.lqrReported then { state := r }
    else
      { state := { r with rxBlocks := r.rxBlocks.insert grpID { b with lqrReported := true }
                          nakChecks := r.nakChecks ++ [grpID] }
        out := sendPacketDirect (lqrPacket cfg grpID b.losses) }

/-- `sendNakPeriodic` for one group: the check is rescheduled until the block
is decoded or gone. -/
def sendNakPeriodic (done : Bool) (r : Receiver) (grpID : UInt16) : Effect Receiver :=
  let gone : Effect Receiver := { state := { r with nakChecks := r.nakChecks.erase grpID } }
  if done then gone
  else
    match r.rxBlocks.lookup grpID with
    | none => gone
    | some b =>
      if b.decoded then gone
      else if b.receivedCnt < b.k then
        { state := r
          out := b.missing.flatMap fun i => sendPacketDirect (nakPacket cfg (b.seqNums.getD i 0)) }
      else { state := r }

/-- The writer's own block. -/
def current (r : Receiver) : Option RxBlock := r.rxBlocks.lookup r.nextWriteGrp

/-- The exit test of the writer once a CLOSE has come. -/
def drained (r : Receiver) : Bool := !r.hasRecv || after r.nextWriteGrp r.maxRecvGrp

/-- One pass of the writer's wait loop. -/
def waitStep (done closeRecv : Bool) (r : Receiver) : Receiver :=
  if done then { r with writer := .leave .cancelled }
  else if (r.current.map RxBlock.decoded).getD false then { r with writer := .write 0 }
  else if closeRecv && r.drained then { r with writer := .leave .closeRecv }
  else r

/-- Delete the block the writer is done with. -/
def advance (r : Receiver) : Receiver :=
  { r with rxBlocks := r.rxBlocks.erase r.nextWriteGrp
           nextWriteGrp := r.nextWriteGrp + 1
           written := r.written + 1
           writer := .wait }

/-- One step of the receiving half; `done` is whether the context is cancelled
and `closeRecv` the flag under `muSend`. -/
def step (done closeRecv : Bool) (r : Receiver) : RxEvent → Option (Effect Receiver)
  | .lqrFire g =>
    match r.rxBlocks.lookup g with
    | some b =>
      if b.lqrTimer = .armed then
        some { state := { r with rxBlocks := r.rxBlocks.insert g { b with lqrTimer := .fired }
                                 lqrCallbacks := r.lqrCallbacks ++ [g] } }
      else none
    | none => none
  | .lqrRun g =>
    if g ∈ r.lqrCallbacks then
      some (handleLQRTimeout cfg { r with lqrCallbacks := r.lqrCallbacks.erase g } g)
    else none
  | .nakRun g => if g ∈ r.nakChecks then some (sendNakPeriodic cfg done r g) else none
  | .wait => if r.writer = .wait then some { state := r.waitStep done closeRecv } else none
  | .slot =>
    match r.writer, r.current with
    | .write i, some b =>
      if i < b.k then
        -- writing to a connection that `Close` has closed fails instead
        if done && !(extract (b.slot i)).isEmpty then none
        else some { state :=
          { r with tcpOut := r.tcpOut ++ extract (b.slot i), writer := .write (i + 1) } }
      else some { state := { r with writer := .cleanup } }
    | _, _ => none
  | .slotError n =>
    match r.writer, r.current with
    | .write i, some b =>
      if i < b.k && decide (n < (extract (b.slot i)).length) then
        some { state := { r with tcpOut := r.tcpOut ++ (extract (b.slot i)).take n
                                 writer := .leave .writeError } }
      else none
    | _, _ => none
  | .cleanup =>
    match r.writer, r.current with
    | .cleanup, some b =>
      let r := { r with
        rxBlocks := r.rxBlocks.insert r.nextWriteGrp
          { b with lqrTimer := if b.lqrTimer = LqrTimer.armed then .stopped else b.lqrTimer } }
      if b.lqrReported then some { state := r.advance }
      else some { state := { r with writer := .report } }
    | _, _ => none
  | .report =>
    if r.writer = .report then
      let eff := handleLQRTimeout cfg r r.nextWriteGrp
      some { eff with state := { eff.state with writer := .finish } }
    else none
  | .finish => if r.writer = .finish then some { state := r.advance } else none
  | .leave =>
    match r.writer with
    | .leave why =>
      some { state := { r with recvClosed := true, halfClosed := true, writer := .returned why } }
    | _ => none

end Receiver

end TcpPep
