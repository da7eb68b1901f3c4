import TcpPep.Lib.Locks

/-!
The locks of a PEP: `proxy/client.go`, `proxy/server.go`, `proxy/session.go`, `proxy/fallback.go`,
`shaper/shaper.go`, `fec/fec.go` and `config/config.go`.

The other modules take every section under a lock for one step. Here are the sections themselves:
for each function the locks it takes and gives back, in their order, as a function of what its
branches and loops depend on. A `cond.Wait` gives its lock back and ends the section; what follows a
wake-up is another one. Reading, sending and timers take no lock of the program.

* `Mutex.rank`: `mu` of the PEP, `muRecv`, `muSend`, then the shaper's and the encoder's own;
* `Under`: only locks below a rank are held, which is what a caller of a function has to see to;
* `Routine`: what the goroutines of a PEP run, from one state without a lock to the next;
* `locks_deadlock_free`: no interleaving of any number of them gets stuck.
-/

namespace TcpPep

open Locks Events

/-- The locks of a PEP. Those of a session have its number. -/
inductive Mutex where
  /-- `mu` of `ClientPEP` or `ServerPEP` -/
  | pep
  | muConnect
  /-- `mu` of `Router` -/
  | router
  | muRecv (i : Nat)
  | muSend (i : Nat)
  /-- `mu` of `FEC` -/
  | fec (i : Nat)
  /-- `mu` of `Shaper` -/
  | shaper (i : Nat)
  /-- of the whole program, in `fallback.go` -/
  | fallbackDstMu
  deriving DecidableEq

def Mutex.rank : Mutex → Nat
  | .pep => 0
  | .muRecv _ => 1
  | .muSend _ => 2
  | .fec _ => 3
  | .shaper _ => 4
  | .muConnect => 5
  | .router => 6
  | .fallbackDstMu => 7

abbrev Ops := List (Op Mutex)

namespace Locking

/-! ## `shaper/shaper.go` -/

/-- Each method of the shaper is one section, and so is each pass of `Run`: the wait loop, taking
the whole queue, taking a burst. -/
def shaperSection (i : Nat) : Ops := within (.shaper i) []

def updateParams (i : Nat) : Ops := shaperSection i

def enqueue (i : Nat) : Ops := shaperSection i

def enqueueMany (i : Nat) : Ops := shaperSection i

def stop (i : Nat) : Ops := shaperSection i

def queueLen (i : Nat) : Ops := shaperSection i

def run (i : Nat) : Ops := shaperSection i

/-! ## `fec/fec.go` and `config/config.go` -/

def getEncoder (i : Nat) : Ops := within (.fec i) []

def encode (i m : Nat) : Ops := if m = 0 then [] else getEncoder i

def reconstruct (i m : Nat) : Ops := if m = 0 then [] else getEncoder i

def lookup : Ops := sharing .router []

/-! ## `proxy/session.go` -/

def start (i : Nat) : Ops := within (.muRecv i) []

def close (i : Nat) : Ops := stop i ++ within (.muSend i) [] ++ within (.muRecv i) []

def flushPendingBlockLocked (i curM : Nat) (pending encoded : Bool) : Ops :=
  if pending then encode i curM ++ if encoded then enqueueMany i else [] else []

def flushPendingBlock (i curM : Nat) (pending encoded : Bool) : Ops :=
  within (.muSend i) (flushPendingBlockLocked i curM pending encoded)

/-- One round of the loop of `readTCPRun`, with the polls of its back-pressure test. -/
def readTCP (i polls curM : Nat) (full encoded : Bool) : Ops :=
  (List.replicate polls (queueLen i)).flatten ++
    within (.muSend i) (if full then flushPendingBlockLocked i curM true encoded else [])

/-- The deferred function of `readTCPRun`. -/
def endOfStream (i polls acks curM : Nat) (pending encoded : Bool) : Ops :=
  within (.muSend i) [] ++ within (.muSend i) (flushPendingBlockLocked i curM pending encoded) ++
    (List.replicate polls (queueLen i)).flatten ++
    (List.replicate acks (within (.muSend i) [])).flatten

/-- The CLOSE goroutine. -/
def closeLoop (i ticks : Nat) (bothClosed : Bool) : Ops :=
  within (.muSend i) [] ++
    if bothClosed then close i else (List.replicate ticks (within (.muSend i) [])).flatten

def tryDecodeBlock (i m : Nat) (complete : Bool) : Ops := if complete then [] else reconstruct i m

def handleDataPacket (i m : Nat) (enough complete : Bool) : Ops :=
  within (.muRecv i) (if enough then tryDecodeBlock i m complete else [])

def handleLQRTimeout (i : Nat) : Ops := within (.muRecv i) []

/-- The lock is given back around each NAK. -/
def sendNakPeriodic (i naks : Nat) : Ops :=
  within (.muRecv i) (List.replicate naks (without (.muRecv i) [])).flatten

/-- One pass of the wait loop of `writeTCPRun`. -/
def writeWait (i : Nat) (ready : Bool) : Ops :=
  within (.muRecv i) (if ready then [] else within (.muSend i) [])

/-- `writeTCPRun` after a block was written. -/
def writeDone (i : Nat) (reported : Bool) : Ops :=
  within (.muRecv i) (if reported then [] else without (.muRecv i) (handleLQRTimeout i))

/-- The deferred function of `writeTCPRun`. -/
def writeEnd (i : Nat) : Ops := within (.muRecv i) []

def handleLQR (i : Nat) (update : Bool) : Ops :=
  within (.muSend i) (if update then updateParams i else [])

def handleNak (i : Nat) (hit : Bool) : Ops := within (.muSend i) [] ++ if hit then enqueue i else []

def handleClose (i : Nat) (bothClosed : Bool) : Ops :=
  within (.muSend i) [] ++ within (.muRecv i) [] ++ if bothClosed then close i else []

def getMonitorStats (i : Nat) : Ops := within (.muSend i) []

/-- The handlers of a session, as a demultiplexer calls them. -/
inductive Handler where
  | data (m : Nat) (enough complete : Bool)
  | nak (hit : Bool)
  | lqr (update : Bool)
  | close (bothClosed : Bool)
  /-- the entry of the table is deleted afterwards -/
  | reset

def handle (i : Nat) : Handler → Ops
  | .data m enough complete => handleDataPacket i m enough complete
  | .nak hit => handleNak i hit
  | .lqr update => handleLQR i update
  | .close bothClosed => handleClose i bothClosed
  | .reset => close i ++ within .pep []

/-! ## `proxy/client.go` and `proxy/server.go` -/

def getFallbackDst : Ops := sharing .fallbackDstMu []

def setFallbackDst : Ops := within .fallbackDstMu []

/-- The fallback is asked for first, and again when the system does not know the destination. -/
def getOriginalDST (unknown : Bool) : Ops :=
  getFallbackDst ++ if unknown then getFallbackDst else []

def getNextStreamID : Ops := within .pep []

/-- How a handshake ends. -/
inductive Outcome where
  /-- no destination -/
  | unknown
  | unroutable
  /-- out of StreamIDs -/
  | exhausted
  | refused
  /-- a timeout, or a CONNECT that cannot be encoded -/
  | abandoned
  | established (i : Nat)

/-- What `handleTCPConn` does after `GetOriginalDST`. -/
def handshake : Outcome → Ops
  | .unknown => []
  | .unroutable => sharing .pep [] ++ lookup
  | .exhausted => sharing .pep [] ++ lookup ++ getNextStreamID
  | .refused => sharing .pep [] ++ lookup ++ getNextStreamID ++ within .muConnect []
  | .abandoned =>
    sharing .pep [] ++ lookup ++ getNextStreamID ++ within .muConnect [] ++ within .muConnect []
  | .established i =>
    sharing .pep [] ++ lookup ++ getNextStreamID ++ within .muConnect [] ++ within .pep
    [] ++ start i

def handleTCPConn (unknown : Bool) (outcome : Outcome) : Ops :=
  getOriginalDST unknown ++ handshake outcome

/-- One round of `udpDemuxLoop` of the client for a reply to a CONNECT. -/
def handshakeReply : Ops := within .muConnect []

/-- One round of `udpDemuxLoop` for any other packet. -/
def udpDemuxLoop : Option (Nat × Handler) → Ops
  | none => sharing .pep []
  | some (i, handler) => sharing .pep [] ++ handle i handler

def handleConnect (old : Option Nat) (i : Nat) : Ops :=
  within .pep (match old with
    | some j => close j
    | none => []) ++ start i

def cleanupLoop (finished : List Nat) : Ops := within .pep (finished.flatMap close)

def stopPEP (stopped : Bool) (sessions : List Nat) : Ops :=
  within .pep [] ++ if stopped then [] else within .pep (sessions.flatMap close)

def updateRouter : Ops := within .pep []

/-- `GetSessions`, `LocalAddr`, and the test for `stopped` after an error. -/
def getSessions : Ops := sharing .pep []

/-- `handleCommand` and `handleStats` of the monitors. -/
def monitor (sessions : List Nat) : Ops := getSessions ++ sessions.flatMap getMonitorStats

end Locking

/-! ## What the goroutines run -/

open Locking in
/-- What a goroutine runs from one state without a lock to the next. -/
inductive Routine : Ops → Prop
  | run (i : Nat) : Routine (run i)
  | start (i : Nat) : Routine (start i)
  | close (i : Nat) : Routine (close i)
  | flushPendingBlock (i curM : Nat) (pending encoded : Bool) :
      Routine (flushPendingBlock i curM pending encoded)
  | readTCP (i polls curM : Nat) (full encoded : Bool) : Routine (readTCP i polls curM full encoded)
  | endOfStream (i polls acks curM : Nat) (pending encoded : Bool) :
      Routine (endOfStream i polls acks curM pending encoded)
  | closeLoop (i ticks : Nat) (bothClosed : Bool) : Routine (closeLoop i ticks bothClosed)
  | handleLQRTimeout (i : Nat) : Routine (handleLQRTimeout i)
  | sendNakPeriodic (i naks : Nat) : Routine (sendNakPeriodic i naks)
  | writeWait (i : Nat) (ready : Bool) : Routine (writeWait i ready)
  | writeDone (i : Nat) (reported : Bool) : Routine (writeDone i reported)
  | writeEnd (i : Nat) : Routine (writeEnd i)
  | setFallbackDst : Routine setFallbackDst
  | handleTCPConn (unknown : Bool) (outcome : Outcome) : Routine (handleTCPConn unknown outcome)
  | handshakeReply : Routine handshakeReply
  | udpDemuxLoop (found : Option (Nat × Handler)) : Routine (udpDemuxLoop found)
  | handleConnect (old : Option Nat) (i : Nat) : Routine (handleConnect old i)
  | cleanupLoop (finished : List Nat) : Routine (cleanupLoop finished)
  | stopPEP (stopped : Bool) (sessions : List Nat) : Routine (stopPEP stopped sessions)
  | updateRouter : Routine updateRouter
  | getSessions : Routine getSessions
  | monitor (sessions : List Nat) : Routine (monitor sessions)

/-! ## The order -/

/-- Only locks below a rank are held. -/
def Under (k : Nat) (held : Held Mutex) : Prop := ∀ h ∈ held, h.1.rank < k

section Under

variable {k k' : Nat} {held : Held Mutex} {l : Mutex} {own : Bool}

theorem under_nil : Under k [] := by
  intro h hh
  cases hh

theorem Under.mono (h : Under k held) (hk : k ≤ k') : Under k' held :=
  fun e he => Nat.lt_of_lt_of_le (h e he) hk

theorem Under.cons (h : Under l.rank held) (hk : l.rank < k) : Under k ((l, own) :: held) := by
  intro e he
  rcases List.mem_cons.mp he with rfl | he
  · exact hk
  · exact Nat.lt_trans (h e he) hk

theorem under_pep : Under 1 [(.pep, true)] := Under.cons under_nil (show 0 < 1 by decide)

theorem under_muRecv (i : Nat) : Under 2 [(.muRecv i, true)] :=
  Under.cons under_nil (show 1 < 2 by decide)

theorem under_muSend (i : Nat) : Under 3 [(.muSend i, true)] :=
  Under.cons under_nil (show 2 < 3 by decide)

end Under

abbrev Keeps (held : Held Mutex) (ops : Ops) : Prop := Balanced Mutex.rank held ops

namespace Locking

variable {held : Held Mutex} (i : Nat)

theorem keeps_section {l : Mutex} (h : Under l.rank held) : Keeps held (within l []) :=
  .within h .nil

theorem keeps_shared {l : Mutex} (h : Under l.rank held) : Keeps held (sharing l []) :=
  .sharing h .nil

theorem keeps_replicate {ops : Ops} (h : Keeps held ops) (n : Nat) :
    Keeps held (List.replicate n ops).flatten := by
  induction n with
  | zero => exact .nil
  | succ n ih =>
    rw [List.replicate_succ, List.flatten_cons]
    exact h.append ih

theorem keeps_shaper (h : Under 4 held) : Keeps held (shaperSection i) := keeps_section h

theorem keeps_getEncoder (h : Under 3 held) (m : Nat) :
    Keeps held (if m = 0 then [] else getEncoder i) :=
  .ite .nil (keeps_section h)

theorem keeps_flush (h : Under 3 held) (curM : Nat) (pending encoded : Bool) :
    Keeps held (flushPendingBlockLocked i curM pending encoded) := by
  refine .ite (.append (keeps_getEncoder i h curM) ?_) .nil
  exact .ite (keeps_shaper i (h.mono (by decide))) .nil

theorem keeps_muSend (h : Under 2 held) {ops : Ops} (hops : Keeps ((.muSend i, true) :: held) ops) :
    Keeps held (within (.muSend i) ops) := .within h hops

theorem keeps_muRecv (h : Under 1 held) {ops : Ops} (hops : Keeps ((.muRecv i, true) :: held) ops) :
    Keeps held (within (.muRecv i) ops) := .within h hops

/-- `Close` may be called with `mu` of the PEP. -/
theorem keeps_close (h : Under 1 held) : Keeps held (close i) :=
  ((keeps_shaper i (h.mono (by decide))).append (keeps_muSend i (h.mono (by decide)) .nil)).append
    (keeps_section h)

theorem keeps_handle (handler : Handler) : Keeps [] (handle i handler) := by
  have hsend : ∀ {ops : Ops}, Keeps [(.muSend i, true)] ops → Keeps [] (within (.muSend i) ops) :=
    keeps_muSend i under_nil
  cases handler with
  | data m enough complete =>
    refine keeps_muRecv i under_nil (.ite (.ite .nil (keeps_getEncoder i ?_ m)) .nil)
    exact (under_muRecv i).mono (by decide)
  | nak hit => exact (hsend .nil).append (.ite (keeps_shaper i under_nil) .nil)
  | lqr update => exact hsend (.ite (keeps_shaper i ((under_muSend i).mono (by decide))) .nil)
  | close bothClosed =>
    exact ((hsend .nil).append (keeps_section under_nil)).append
      (.ite (keeps_close i under_nil) .nil)
  | reset => exact (keeps_close i under_nil).append (keeps_section under_nil)

theorem keeps_handshake (outcome : Outcome) : Keeps [] (handshake outcome) := by
  have hasked : Keeps [] (sharing .pep [] ++ lookup) :=
    (keeps_shared under_nil).append (keeps_shared under_nil)
  have hgiven := hasked.append (keeps_section (l := .pep) under_nil)
  have hopened := hgiven.append (keeps_section (l := .muConnect) under_nil)
  cases outcome with
  | unknown => exact .nil
  | unroutable => exact hasked
  | exhausted => exact hgiven
  | refused => exact hopened
  | abandoned => exact hopened.append (keeps_section under_nil)
  | established i =>
    exact (hopened.append (keeps_section under_nil)).append (keeps_section under_nil)

end Locking

open Locking in
/-- **The order of the locks.** Every routine takes its locks upwards and keeps none. -/
theorem keeps_of_routine {ops : Ops} (h : Routine ops) : Keeps [] ops := by
  have hpep : ∀ sessions : List Nat, Keeps [] (within .pep (sessions.flatMap close)) := by
    intro sessions
    exact .within under_nil (.flatMap (fun i => keeps_close i under_pep) sessions)
  have hflush : ∀ i curM pending encoded,
      Keeps [] (within (.muSend i) (flushPendingBlockLocked i curM pending encoded)) := by
    intro i curM pending encoded
    exact keeps_muSend i under_nil (keeps_flush i (under_muSend i) curM pending encoded)
  have hpolls : ∀ i n, Keeps [] (List.replicate n (queueLen i)).flatten := by
    intro i n
    exact keeps_replicate (keeps_shaper i under_nil) n
  have hsends : ∀ i n, Keeps [] (List.replicate n (within (.muSend i) [])).flatten := by
    intro i n
    exact keeps_replicate (keeps_section under_nil) n
  cases h with
  | run i => exact keeps_shaper i under_nil
  | start i => exact keeps_section under_nil
  | close i => exact keeps_close i under_nil
  | flushPendingBlock i curM pending encoded => exact hflush i curM pending encoded
  | readTCP i polls curM full encoded =>
    exact (hpolls i polls).append
      (keeps_muSend i under_nil (.ite (keeps_flush i (under_muSend i) curM true encoded) .nil))
  | endOfStream i polls acks curM pending encoded =>
    exact (((keeps_section under_nil).append (hflush i curM pending encoded)).append
      (hpolls i polls)).append
      (hsends i acks)
  | closeLoop i ticks bothClosed =>
    exact (keeps_section under_nil).append (.ite (keeps_close i under_nil) (hsends i ticks))
  | handleLQRTimeout i => exact keeps_section under_nil
  | sendNakPeriodic i naks =>
    refine keeps_muRecv i under_nil (keeps_replicate ?_ naks)
    exact .without under_nil .nil
  | writeWait i ready =>
    -- `closeRecv` is read under `muSend` while `muRecv` is held
    exact keeps_muRecv i under_nil (.ite .nil (keeps_muSend i (under_muRecv i) .nil))
  | writeDone i reported =>
    refine keeps_muRecv i under_nil (.ite .nil (.without under_nil ?_))
    exact keeps_section under_nil
  | writeEnd i => exact keeps_section under_nil
  | setFallbackDst => exact keeps_section under_nil
  | handleTCPConn unknown outcome =>
    have hfallback : Keeps [] getFallbackDst := keeps_shared under_nil
    exact (hfallback.append (.ite hfallback .nil)).append (keeps_handshake outcome)
  | handshakeReply => exact keeps_section under_nil
  | udpDemuxLoop found =>
    cases found with
    | none => exact keeps_shared under_nil
    | some found => exact (keeps_shared under_nil).append (keeps_handle found.1 found.2)
  | handleConnect old i =>
    refine Balanced.append (.within under_nil ?_) (keeps_section under_nil)
    cases old with
    | none => exact .nil
    | some j => exact keeps_close j under_pep
  | cleanupLoop finished => exact hpep finished
  | stopPEP stopped sessions => exact (keeps_section under_nil).append (.ite .nil (hpep sessions))
  | updateRouter => exact keeps_section under_nil
  | getSessions => exact keeps_shared under_nil
  | monitor sessions =>
    exact (keeps_shared under_nil).append (.flatMap (fun i => keeps_section under_nil) sessions)

/-- Goroutines enter the routines of a PEP. -/
def EntersRoutine (_ : Pool Mutex) : PoolEvent Mutex → Prop
  | .enter ops => Routine ops
  | .run _ => True

/-- **No deadlock.** Any number of goroutines run the routines of a PEP and of any number of its
sessions, in any interleaving. Whenever one of them is inside a routine, some goroutine can do its
next lock operation, and all of them can be brought to their end without another one being entered.
-/
theorem locks_deadlock_free {s : Pool Mutex} (hr : Reach (pool Mutex) EntersRoutine s)
    (hbusy : ∃ t ∈ s, t.todo ≠ []) :
    (∃ i s', (pool Mutex).step s (.run i) = some s') ∧
    ∃ s', Reach { pool Mutex with init := s } OnlyRuns s' ∧ ∀ t ∈ s', t.todo = [] := by
  have horder : s.InOrder Mutex.rank := by
    refine inOrder_of_reach (hr.mono ?_)
    intro s e hok
    cases e with
    | enter ops => exact (keeps_of_routine hok).ordered
    | run i => trivial
  constructor
  · obtain ⟨t, ht, hne, hfree⟩ := horder.not_stuck hbusy
    obtain ⟨i, hi⟩ := List.getElem?_of_mem ht
    obtain ⟨t', hperform, -, -⟩ := (horder t ht).perform hne
    exact ⟨i, s.set i t', by simp [pool, Pool.run, hi, hfree, hperform]⟩
  · obtain ⟨s', hr', -, hdone⟩ := pool_finishes s horder hbusy
    exact ⟨s', hr', hdone⟩

/-- `cleanupLoop` is about to close session 0, whose block timer has fired. -/
def twoGoroutines : Pool Mutex :=
  [{ todo := Locking.cleanupLoop [0] }, { todo := Locking.flushPendingBlock 0 1 true true }]

/-- `cleanupLoop` holds `mu` and waits for `muSend` of session 0, which `flushPendingBlock` holds.
-/
theorem locks_deadlock_free_small :
    ∃ s t, Reach (pool Mutex) EntersRoutine s ∧ t ∈ s ∧ t.held = [(.pep, true)] ∧ s.free t = false ∧
      ∃ s', Reach { pool Mutex with init := s } OnlyRuns s' ∧ ∀ t ∈ s', t.todo = [] := by
  have hcleanup : Reach (pool Mutex) EntersRoutine _ :=
    .step (e := .enter _) .init (Routine.cleanupLoop [0]) rfl
  have hboth : Reach (pool Mutex) EntersRoutine twoGoroutines :=
    .step (e := .enter _) hcleanup (Routine.flushPendingBlock 0 1 true true) rfl
  -- `muSend` is taken, then `mu`, and `Shaper.Stop` is run
  obtain ⟨s, hruns, hwait⟩ : ∃ s, Reach { pool Mutex with init := twoGoroutines } OnlyRuns s ∧
      s.any (fun t => decide (t.held = [(.pep, true)]) && decide (t.todo ≠ []) && !s.free t) =
      true :=
    Reach.exists_of_runOk _ [.run 1, .run 0, .run 0, .run 0] (by decide +kernel)
  have hr : Reach (pool Mutex) EntersRoutine s := by
    refine hboth.trans (hruns.mono ?_)
    intro s e he
    cases e with
    | enter ops => cases he
    | run i => trivial
  obtain ⟨t, ht, hwait⟩ := List.any_eq_true.mp hwait
  simp only [Bool.and_eq_true, decide_eq_true_eq, Bool.not_eq_true'] at hwait
  obtain ⟨⟨hheld, hne⟩, hfree⟩ := hwait
  exact ⟨s, t, hr, ht, hheld, hfree, (locks_deadlock_free hr ⟨t, ht, hne⟩).2⟩

end TcpPep
