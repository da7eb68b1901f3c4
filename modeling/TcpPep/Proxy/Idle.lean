import TcpPep.Proxy.CloseAgreement
import TcpPep.Proxy.Teardown
import TcpPep.Proxy.Mending

/-!
Idle sessions: `cleanupLoop` of `proxy/client.go` and `proxy/server.go`, and `lastActive` of
`proxy/session.go`.

Every thirty seconds a PEP closes and forgets the sessions that are closed or have not been active
for longer than `idleTimeout`. Activity is whatever stores the time in `lastActive`: the packets
that come in, the data read from and written to the TCP connection, and every datagram the session
itself sends. A `Lease` is one entry of the session table with the clock and the timers of the
session that matter to it. Times are in milliseconds.

* `Session.touches`: the steps that store the time;
* `lease`, `Lease.Punctual`: the timed machine; a timer fires when it is due and is served at most
  `late` after that;
* `Lease.Bounded`: how old an entry can get;
* `Lease.Beating`: a session whose CLOSE loop or NAK loop runs and is not answered;
* `idle_cleanup`: an entry goes after its last activity or its end, within a known time; and a loop
  that nobody answers is activity of its own, so such an entry never goes.
-/

namespace TcpPep

open Protocol Fec FiniteMap Events

/-! ## Activity -/

/-- The step calls `updateLastActive`: `sendRawUDP`, a `Read` with data, the end of a block in
`writeTCPRun`, and the handlers of DATA, LQR and NAK. `HandleClose` does not. -/
def Session.touches (s' : Session) (e : SessionEvent) (out : List Bytes) : Bool :=
  !out.isEmpty ||
    match e with
    | .tx (.read _) => true
    | .rx .slot => decide (s'.rx.writer = .cleanup)
    | .recv p => decide (p.type = .data ∨ p.type = .lqr ∨ p.type = .nak)
    | _ => false

/-- The ticker of `cleanupLoop`. -/
def cleanupInterval : Nat := 30000

/-- The ticker of the CLOSE goroutine. -/
def closeInterval : Nat := 300

/-- `NAKDelayDur`. -/
def nakDelay : Nat := 50

/-- When a ticker fires after a tick that was due at `due` and is served at `now`: the ticks that
went by in between are dropped. -/
def nextTick (period due now : Nat) : Nat := due + period * ((now - due) / period + 1)

theorem nextTick_le {period due now : Nat} (h : due ≤ now) :
    nextTick period due now ≤ now + period := by
  have hdiv := Nat.div_mul_le_self (now - due) period
  have hcomm := Nat.mul_comm period ((now - due) / period)
  rw [nextTick, Nat.mul_add, Nat.mul_one]
  omega

theorem lt_nextTick {period due now : Nat} (hp : 0 < period) : now < nextTick period due now := by
  have hlt := Nat.lt_mul_div_succ (now - due) hp
  rw [nextTick]
  omega

/-! ## The timed machine -/

/-- An entry of the session table. -/
structure Lease where
  session : Session
  now : Nat := 0
  lastActive : Nat := 0
  /-- when the ticker of `cleanupLoop` fires next -/
  sweepDue : Nat
  /-- when the ticker of the CLOSE goroutine fires next -/
  closeDue : Nat := 0
  /-- when the scheduled `sendNakPeriodic` calls run -/
  nakDue : List (UInt16 × Nat) := []
  /-- the session is in the table -/
  listed : Bool := true
  /-- when the context was cancelled; no step reads it -/
  closedAt : Option Nat := none

inductive LeaseEvent where
  /-- time passes -/
  | pass (d : Nat)
  | act (e : SessionEvent)
  /-- a tick of `cleanupLoop` -/
  | sweep
  /-- a demultiplexer removes the session after a RESET -/
  | drop

namespace Lease

variable (rs : ReedSolomon) (cfg : Config) (idleTimeout : Nat)

/-- The check of group `g` that is due. -/
def nakAt (s : Lease) (g : UInt16) : Option (UInt16 × Nat) :=
  s.nakDue.find? fun x => decide (x.1 = g) && decide (x.2 ≤ s.now)

/-- A timer does not fire before it is due. -/
def isDue (s : Lease) : SessionEvent → Bool
  | .tx .closeTick => decide (s.closeDue ≤ s.now)
  | .rx (.nakRun g) => (s.nakAt g).isSome
  | _ => true

/-- The CLOSE goroutine makes its ticker before it sends the first CLOSE. -/
def nextClose (s : Lease) : SessionEvent → Nat
  | .tx .closeSend => s.now + closeInterval
  | .tx .closeTick => nextTick closeInterval s.closeDue s.now
  | _ => s.closeDue

/-- `sendNakPeriodic` schedules itself again until it gives up; `handleLQRTimeout` schedules the
first call. `checks` are the scheduled groups after the step. -/
def nextNaks (s : Lease) (checks : List UInt16) : SessionEvent → List (UInt16 × Nat)
  | .rx (.nakRun g) =>
    match s.nakAt g with
    | none => s.nakDue
    | some x =>
      if checks.length = s.session.rx.nakChecks.length then s.nakDue.erase x ++
        [(g, s.now + nakDelay)]
      else s.nakDue.erase x
  | _ => s.nakDue ++ (checks.drop s.session.rx.nakChecks.length).map fun g => (g, s.now + nakDelay)

/-- Put the session back. -/
def install (s : Lease) (session : Session) : Lease :=
  { s with session, closedAt := if session.cancelled && s.closedAt.isNone then some s.now
    else s.closedAt }

/-- A step of the session: what it stores, and the timers it sets. -/
def acted (s : Lease) (e : SessionEvent) (session : Session) (out : List Bytes) : Lease :=
  { s.install session with
    lastActive := if session.touches e out then s.now else s.lastActive
    closeDue := s.nextClose e
    nakDue := s.nextNaks session.rx.nakChecks e }

/-- The test of `cleanupLoop`. -/
def expired (s : Lease) : Bool := s.session.cancelled || decide (s.now - s.lastActive > idleTimeout)

def step (s : Lease) : LeaseEvent → Option Lease
  | .pass d => some { s with now := s.now + d }
  | .act e =>
    if s.isDue e then (s.session.step rs cfg e).map fun r => s.acted e r.1 r.2 else none
  | .sweep =>
    if s.sweepDue ≤ s.now then
      let s := { s with sweepDue := nextTick cleanupInterval s.sweepDue s.now }
      if s.listed && s.expired idleTimeout then
      some { s.install s.session.close with listed := false }
      else some s
    else none
  | .drop => if s.session.cancelled then some { s with listed := false } else none

end Lease

/-- An entry made at time 0, when the ticker of `cleanupLoop` fires next at `phase`. -/
def lease (rs : ReedSolomon) (cfg : Config) (idleTimeout phase : Nat) :
    Machine Lease LeaseEvent where
  init := { session := newSession cfg, sweepDue := phase }
  step := Lease.step rs cfg idleTimeout

namespace Lease

/-- No timer is served later than `late` after it is due. -/
def Punctual (late : Nat) (s : Lease) : LeaseEvent → Prop
  | .pass d =>
    s.now + d ≤ s.sweepDue + late ∧ (s.session.tx.closer = .loop → s.now + d ≤ s.closeDue + late) ∧
      ∀ x ∈ s.nakDue, s.now + d ≤ x.2 + late
  | _ => True

instance (late : Nat) (s : Lease) (e : LeaseEvent) : Decidable (s.Punctual late e) :=
  match e with
  | .pass d =>
    inferInstanceAs (Decidable (s.now + d ≤ s.sweepDue + late ∧
      (s.session.tx.closer = .loop → s.now + d ≤ s.closeDue + late) ∧
      ∀ x ∈ s.nakDue, s.now + d ≤ x.2 + late))
  | .act _ | .sweep | .drop => inferInstanceAs (Decidable True)

/-- Nothing comes from the peer, the TCP connection does not fail, and nobody closes the session. -/
def Silent : LeaseEvent → Prop
  | .act (.recv _) | .act .cancel | .act (.tx .readError) => False
  | _ => True

instance (e : LeaseEvent) : Decidable (Silent e) :=
  match e with
  | .act (.recv _) | .act .cancel | .act (.tx .readError) => inferInstanceAs (Decidable False)
  | .pass _ | .sweep | .drop | .act .launch | .act .start | .act .finishHandler | .act (.rx _) =>
    inferInstanceAs (Decidable True)
  | .act (.tx e) => by unfold Silent; split <;> infer_instance

/-! ## What a step can do -/

/-- The steps of an entry. -/
inductive Stepped (rs : ReedSolomon) (cfg : Config) (idleTimeout : Nat) (s : Lease) :
    LeaseEvent → Lease → Prop
  | pass (d : Nat) : Stepped rs cfg idleTimeout s (.pass d) { s with now := s.now + d }
  | act (e : SessionEvent) (session : Session) (out : List Bytes) (hdue : s.isDue e = true)
      (hs : s.session.step rs cfg e = some (session, out)) :
      Stepped rs cfg idleTimeout s (.act e) (s.acted e session out)
  | reap (hdue : s.sweepDue ≤ s.now) (hl : s.listed = true) (hx : s.expired idleTimeout = true) :
      Stepped rs cfg idleTimeout s .sweep
        { s.install s.session.close with
          sweepDue := nextTick cleanupInterval s.sweepDue s.now
          listed := false }
  | spare (hdue : s.sweepDue ≤ s.now) (hl : s.listed = true → s.expired idleTimeout = false) :
      Stepped rs cfg idleTimeout s .sweep
        { s with sweepDue := nextTick cleanupInterval s.sweepDue s.now }
  | drop (hc : s.session.cancelled = true) :
      Stepped rs cfg idleTimeout s .drop { s with listed := false }

variable {rs : ReedSolomon} {cfg : Config} {idleTimeout phase late : Nat} {s s' : Lease}
  {e : LeaseEvent}

theorem stepped_of_step (hs : s.step rs cfg idleTimeout e = some s') :
    Stepped rs cfg idleTimeout s e s' := by
  cases e with
  | pass d =>
    cases hs
    exact .pass d
  | act e =>
    simp only [step, Option.ite_none_right_eq_some, Option.map_eq_some_iff] at hs
    obtain ⟨hdue, ⟨session, out⟩, hstep, rfl⟩ := hs
    exact .act e session out hdue hstep
  | sweep =>
    simp only [step, Option.ite_none_right_eq_some] at hs
    obtain ⟨hdue, hs⟩ := hs
    split at hs
    · rename_i h
      rw [Bool.and_eq_true] at h
      cases hs
      exact .reap hdue h.1 h.2
    · rename_i h
      cases hs
      apply Stepped.spare hdue
      intro hl
      simpa [hl, expired] using h
  | drop =>
    simp only [step, Option.ite_none_right_eq_some, Option.some.injEq] at hs
    obtain ⟨hc, rfl⟩ := hs
    exact .drop hc

theorem acted_lastActive (h : s.lastActive ≤ s.now) (e : SessionEvent) (session : Session)
    (out : List Bytes) :
    s.lastActive ≤ (s.acted e session out).lastActive ∧
    (s.acted e session out).lastActive ≤ s.now := by
  simp only [acted]
  split <;> omega

/-! ## How old an entry can get -/

/-- The next sweep is near: within an interval of now, of the end of the session, and of the moment
the session has been idle for too long. -/
structure Bounded (idleTimeout late : Nat) (s : Lease) : Prop where
  active : s.lastActive ≤ s.now
  near : s.sweepDue ≤ s.now + cleanupInterval
  served : s.now ≤ s.sweepDue + late
  stamped : s.session.cancelled = true → s.closedAt.isSome = true
  idle : s.listed = true → s.sweepDue ≤ s.lastActive + idleTimeout + cleanupInterval
  closed : s.listed = true → ∀ t, s.closedAt = some t → s.session.cancelled = true ∧
    s.sweepDue ≤ t + cleanupInterval

theorem Bounded.act (h : s.Bounded idleTimeout late) {e : SessionEvent} {session : Session}
    {out : List Bytes} (hs : s.session.step rs cfg e = some (session, out)) :
    (s.acted e session out).Bounded idleTimeout late := by
  have hkeep : s.session.cancelled = true → session.cancelled = true :=
    (Session.step_rxChange hs).2.2
  have hlast := acted_lastActive h.active e session out
  constructor
  · exact hlast.2
  · exact h.near
  · exact h.served
  · intro hc
    change (if session.cancelled && s.closedAt.isNone then some s.now else s.closedAt).isSome = true
    change session.cancelled = true at hc
    cases hat : s.closedAt <;> simp [hc]
  · intro hl
    have hidle := h.idle hl
    change s.sweepDue ≤ _
    omega
  · intro hl t ht
    have hnear := h.near
    change (if session.cancelled && s.closedAt.isNone then some s.now else s.closedAt) =
      some t at ht
    split at ht
    · rename_i hc
      cases ht
      rw [Bool.and_eq_true] at hc
      exact ⟨hc.1, hnear⟩
    · obtain ⟨hc, hle⟩ := h.closed hl t ht
      exact ⟨hkeep hc, hle⟩

/-- Time passes only up to the next sweep, and a sweep removes what has become too old. -/
theorem Bounded.step (h : s.Bounded idleTimeout late) (hok : s.Punctual late e)
    (hs : s.step rs cfg idleTimeout e = some s') : s'.Bounded idleTimeout late := by
  cases stepped_of_step hs with
  | pass d =>
    have hactive := h.active
    have hnear := h.near
    exact ⟨by simp only; omega, by simp only; omega, hok.1, h.stamped, h.idle, h.closed⟩
  | act e session out hdue hstep => exact h.act hstep
  | reap hdue hl hx =>
    have hserved : s.now ≤ nextTick cleanupInterval s.sweepDue s.now :=
      Nat.le_of_lt (lt_nextTick (by decide))
    refine ⟨h.active, nextTick_le hdue, Nat.le_add_right_of_le hserved, ?_, (fun hl => by cases hl),
      (fun hl => by cases hl)⟩
    intro _
    change (if s.session.close.cancelled && s.closedAt.isNone then some s.now
      else s.closedAt).isSome = true
    cases hat : s.closedAt <;> simp [Session.close]
  | spare hdue hspare =>
    have hnext : nextTick cleanupInterval s.sweepDue s.now ≤ s.now + cleanupInterval :=
      nextTick_le hdue
    have hactive := h.active
    refine ⟨h.active, hnext, Nat.le_add_right_of_le (Nat.le_of_lt (lt_nextTick (by decide))),
      h.stamped, ?_, ?_⟩
    · intro hl
      have hyoung := hspare hl
      simp only [expired, Bool.or_eq_false_iff, decide_eq_false_iff_not] at hyoung
      simp only
      omega
    · -- a closed session would not have been spared
      intro hl t ht
      have hopen := hspare hl
      simp [expired, (h.closed hl t ht).1] at hopen
  | drop hc =>
    exact ⟨h.active, h.near, h.served, h.stamped, (fun hl => by cases hl), (fun hl => by cases hl)⟩

end Lease

/-! ## Loops that nobody answers -/

/-- The CLOSE goroutine starts when the reader has returned, and it closes the session after its
first CLOSE only if the peer's has come. -/
structure Sender.Retiring (s : Sender) : Prop where
  reader : s.closer ≠ .idle → s.reader = .returned
  answered : s.closer = .finish true → s.closeRecv = true

section Retiring

variable {rs : ReedSolomon} {cfg : Config} {done : Bool} {s : Sender} {e : TxEvent}
  {eff : Effect Sender}

theorem Sender.Retiring.step (h : s.Retiring) (hs : Sender.Stepped rs cfg done s e eff) :
    eff.state.Retiring := by
  -- a reader that has not returned has not started the goroutine
  have hidle : s.reader ≠ .returned → s.closer = .idle := by
    intro hr
    by_contra hc
    exact hr (h.reader hc)
  cases hs with
  | check hr hd hq => exact ⟨fun hc => absurd (hidle (by simp [hr])) hc, h.answered⟩
  | read data hr hne hle =>
    obtain ⟨hcloser, -, hrecv⟩ := @Sender.readTCP_closer rs cfg s data
    have hnone := hcloser.trans (hidle (by simp [hr]))
    exact ⟨fun hc => absurd hnone hc, fun hc => by cases hnone.symm.trans hc⟩
  | eof hr => exact ⟨fun hc => absurd (hidle (by simp [hr])) hc, h.answered⟩
  | readError hr => exact ⟨fun _ => rfl, h.answered⟩
  | finFlush hr hd =>
    have hnone := (Sender.flush_closer rs cfg s).trans (hidle (by simp [hr]))
    exact ⟨fun hc => absurd hnone hc, fun hc => by cases hnone.symm.trans hc⟩
  | finDrain hr hq => exact ⟨fun hc => absurd (hidle (by simp [hr])) hc, h.answered⟩
  | finAcked hr ha => exact ⟨fun _ => rfl, nofun⟩
  | finTimeout hr => exact ⟨fun _ => rfl, nofun⟩
  | readerQuit hq hd => exact ⟨fun _ => rfl, h.answered⟩
  | timerRun hc =>
    constructor
    · rw [Sender.flush_closer, Sender.flush_reader]
      exact h.reader
    · rw [Sender.flush_closer, Sender.flush_closeRecv]
      exact h.answered
  | closeSend hc => exact ⟨fun _ => h.reader (by simp [hc]), nofun⟩
  | closeMark hc =>
    refine ⟨fun _ => h.reader (by simp [hc]), ?_⟩
    intro hfin
    exact Closer.finish.inj hfin
  | closeBoth hc => exact ⟨fun _ => h.reader (by simp [hc]), nofun⟩
  | closeLoop hc => exact ⟨fun _ => h.reader (by simp [hc]), nofun⟩
  | closeAnswered hc hr => exact ⟨fun _ => h.reader (by simp [hc]), nofun⟩
  | closeQuit hc hd => exact ⟨fun _ => h.reader (by simp [hc]), nofun⟩
  | timerFire | looseFire | shaper | closeAgain => exact ⟨h.reader, h.answered⟩

end Retiring

namespace Session

variable {rs : ReedSolomon} {cfg : Config} {s s' : Session} {e : SessionEvent} {out : List Bytes}

/-- What every run keeps: who starts what, and a block under the writer is decoded. -/
structure Regular (s : Session) : Prop where
  fresh : s.launched = false → s.tx.closer = .idle
  retiring : s.tx.Retiring
  watching : Watching s.cancelled s.rx

theorem regular_new (cfg : Config) : (newSession cfg).Regular :=
  ⟨fun _ => rfl, ⟨fun h => absurd rfl h, nofun⟩, watching_new⟩

theorem handle_closer (cfg : Config) (p : Packet) :
    (s.handle rs cfg p).tx.closer = s.tx.closer ∧
      (s.tx.closeRecv = true → (s.handle rs cfg p).tx.closeRecv = true) := by
  unfold handle
  split
  · exact ⟨rfl, id⟩
  · split <;> exact ⟨rfl, id⟩
  · obtain ⟨m, ok, blocks, size, interval, heq, -⟩ := Sender.handleLQR_eq cfg s.tx p
    rw [heq]
    exact ⟨rfl, id⟩
  · exact ⟨rfl, fun _ => rfl⟩
  · exact ⟨rfl, id⟩
  · exact ⟨rfl, id⟩

theorem finishHandler_closer :
    s.finishHandler.tx.closer = s.tx.closer ∧ s.finishHandler.tx.closeRecv = s.tx.closeRecv := by
  unfold finishHandler
  split
  · exact ⟨rfl, rfl⟩
  · exact ⟨rfl, rfl⟩
  · simp only
    split <;> exact ⟨rfl, rfl⟩

theorem Regular.step (h : s.Regular) (hs : s.step rs cfg e = some (s', out)) : s'.Regular := by
  have hwatch := h.watching.session hs
  cases stepped_of_step hs with
  | launch hl =>
    refine ⟨nofun, ⟨fun hc => absurd (h.fresh hl) hc, h.retiring.answered⟩, hwatch⟩
  | start hl hst => exact ⟨h.fresh, h.retiring, hwatch⟩
  | tx e eff hl hclose heff =>
    exact ⟨fun hno => absurd (hl.symm.trans hno) (by decide), h.retiring.step heff, hwatch⟩
  | txClose e eff hl hclose heff =>
    have hretiring := h.retiring.step heff
    exact ⟨fun hno => absurd (hl.symm.trans hno) (by decide),
      ⟨hretiring.reader, hretiring.answered⟩, hwatch⟩
  | rx e eff heff => exact ⟨h.fresh, h.retiring, hwatch⟩
  | recv p hd =>
    obtain ⟨hcloser, hrecv⟩ := @handle_closer rs s cfg p
    refine ⟨?_, ⟨?_, ?_⟩, hwatch⟩
    · rw [handle_launched, hcloser]
      exact h.fresh
    · rw [hcloser, handle_reader]
      exact h.retiring.reader
    · rw [hcloser]
      exact fun hc => hrecv (h.retiring.answered hc)
  | finishHandler hd =>
    obtain ⟨hcloser, hrecv⟩ := @finishHandler_closer s
    refine ⟨?_, ⟨?_, ?_⟩, hwatch⟩
    · rw [finishHandler_launched, hcloser]
      exact h.fresh
    · rw [hcloser, finishHandler_reader]
      exact h.retiring.reader
    · rw [hcloser, hrecv]
      exact h.retiring.answered
  | cancel => exact ⟨h.fresh, ⟨h.retiring.reader, h.retiring.answered⟩, hwatch⟩

/-- Open, no CLOSE of the peer, and no handler under way. -/
structure Unanswered (s : Session) : Prop where
  regular : s.Regular
  cancelled : s.cancelled = false
  closeRecv : s.tx.closeRecv = false
  demux : s.demux = .idle

/-- Packets, failures and calls of `Close` from outside apart, an unanswered session stays
unanswered. -/
theorem Unanswered.step (h : s.Unanswered) (hsilent : Lease.Silent (.act e))
    (hs : s.step rs cfg e = some (s', out)) :
    s'.Unanswered := by
  have hregular := h.regular.step hs
  cases stepped_of_step hs with
  | tx e eff hl hclose heff =>
    refine ⟨hregular, h.cancelled, ?_, h.demux⟩
    have hrecv := h.closeRecv
    cases heff with
    | read data hr hne hle =>
      obtain ⟨-, -, hrecv'⟩ := @Sender.readTCP_closer rs cfg s.tx data
      exact hrecv'.trans hrecv
    | finFlush hr hd => exact (Sender.flush_closeRecv ..).trans hrecv
    | timerRun hc => exact (Sender.flush_closeRecv ..).trans hrecv
    | _ => exact hrecv
  | txClose e eff hl hclose heff =>
    cases heff with
    | readError hr => exact absurd hsilent id
    | closeBoth hc =>
      have hrecv := h.regular.retiring.answered hc
      rw [h.closeRecv] at hrecv
      cases hrecv
    | _ => cases hclose
  | recv p hd => exact absurd hsilent id
  | finishHandler hd => exact absurd h.demux hd
  | cancel => exact absurd hsilent id
  | launch hl => exact ⟨hregular, h.cancelled, h.closeRecv, h.demux⟩
  | start hl hst => exact ⟨hregular, h.cancelled, h.closeRecv, h.demux⟩
  | rx e eff heff => exact ⟨hregular, h.cancelled, h.closeRecv, h.demux⟩

theorem Unanswered.loop (h : s.Unanswered) (hsilent : Lease.Silent (.act e))
    (hloop : s.tx.closer = .loop) (hs : s.step rs cfg e = some (s', out)) :
    s'.tx.closer = .loop := by
  cases stepped_of_step hs with
  | tx e eff hl hclose heff =>
    have hreader := h.regular.retiring.reader (by simp [hloop])
    cases heff with
    | read data hr hne hle => exact (@Sender.readTCP_closer rs cfg s.tx data).1.trans hloop
    | finFlush hr hd => exact (Sender.flush_closer ..).trans hloop
    | timerRun hc => exact (Sender.flush_closer ..).trans hloop
    | finAcked hr ha => simp [hreader] at hr
    | finTimeout hr => simp [hreader] at hr
    | closeSend hc => simp [hloop] at hc
    | closeMark hc => simp [hloop] at hc
    | closeBoth hc => simp [hloop] at hc
    | closeLoop hc => rfl
    | closeAnswered hc hr => simp [h.closeRecv] at hr
    | closeQuit hc hd => simp [h.cancelled] at hd
    | _ => exact hloop
  | txClose e eff hl hclose heff =>
    cases heff with
    | readError hr => exact absurd hsilent id
    | closeBoth hc => simp [hloop] at hc
    | _ => cases hclose
  | recv p hd => exact absurd hsilent id
  | finishHandler hd => exact absurd h.demux hd
  | cancel => exact absurd hsilent id
  | launch hl => exact hloop
  | start hl hst => exact hloop
  | rx e eff heff => exact hloop

end Session

/-- `sendNakPeriodic` asks for shards of this block. -/
structure RxBlock.Starved (b : RxBlock) : Prop where
  decoded : b.decoded = false
  short : b.receivedCnt < b.k
  missing : b.missing ≠ []

theorem RxBlock.Starved.core {b b' : RxBlock} (h : b.Starved) (hcore : b'.core = b.core) :
    b'.Starved := by
  obtain ⟨hk, hpackets, hcnt, hdec, -⟩ := RxBlock.core_fields hcore
  have hmissing : b'.missing = b.missing := by
    simp only [RxBlock.missing, RxBlock.slot, hk, hpackets]
  exact ⟨hdec.trans h.decoded, by rw [hcnt, hk]; exact h.short, by rw [hmissing]; exact h.missing⟩

/-- Group `g` is open and starved. -/
def Receiver.Starving (r : Receiver) (g : UInt16) : Prop := ∃ b, r.rxBlocks.lookup g = some b ∧
    b.Starved

theorem Receiver.Starving.sameCores {r r' : Receiver} {g : UInt16} (h : r.Starving g)
    (hsame : SameCores r.rxBlocks r'.rxBlocks) : r'.Starving g := by
  obtain ⟨b, hb, hstarved⟩ := h
  have hg := hsame g
  rw [hb, Option.map_some] at hg
  obtain ⟨b', hb', hcore⟩ := Option.map_eq_some_iff.mp hg
  exact ⟨b', hb', hstarved.core hcore⟩

/-- Without packets, a starved block stays as it is: the writer deletes decoded blocks only. -/
theorem Session.Unanswered.starving {rs : ReedSolomon} {cfg : Config} {s s' : Session}
    {e : SessionEvent} {out : List Bytes} (h : s.Unanswered) (hsilent : Lease.Silent (.act e))
    {g : UInt16} (hg : s.rx.Starving g) (hs : s.step rs cfg e = some (s', out)) :
    s'.rx.Starving g := by
  have hchange := (Session.step_rxChange hs).1
  generalize s'.rx = r' at hchange ⊢
  cases hchange with
  | same => exact hg
  | launch hl => exact hg
  | start hl =>
    unfold Receiver.startInit
    split
    · rename_i hempty
      obtain ⟨b, hb, -⟩ := hg
      rw [lookup_of_isEmpty hempty] at hb
      cases hb
    · exact hg
  | data p ht => exact absurd hsilent id
  | step ev eff heff =>
    have hm := Receiver.step_move heff
    generalize eff.state = r' at hm ⊢
    cases hm with
    | timers t cbs naks hsame => exact hg.sameCores hsame
    | unreported t hw hsame => exact hg.sameCores hsame
    | reported t naks hw hsame => exact hg.sameCores hsame
    | advance t hw hsame =>
      have hbusy : s.rx.writer.busy = true := by rcases hw with hw | hw <;> simp [hw, Writer.busy]
      obtain ⟨b, hb, hdec⟩ := h.regular.watching.block hbusy
      have hkept : Receiver.Starving { s.rx with rxBlocks := t } g := hg.sameCores hsame
      obtain ⟨b', hb', hstarved⟩ := hkept
      refine ⟨b', ?_, hstarved⟩
      simp only [Receiver.advance]
      rw [lookup_erase_eq, if_neg ?_]
      · exact hb'
      · rintro rfl
        obtain ⟨b₀, hb₀, hcore⟩ := hsame.lookup hb'
        obtain rfl : b = b₀ := Option.some.inj (hb.symm.trans hb₀)
        rw [← (RxBlock.core_fields hcore).2.2.2.1, hstarved.decoded] at hdec
        cases hdec
    | _ => exact hg

/-! ## An entry that is never swept -/

theorem sendPacketDirect_ne_nil {p : Packet} (ht : p.type = .close ∨ p.type = .nak)
    (hid : p.streamID ≤ 0x0FFF) :
    sendPacketDirect p ≠ [] := by
  have hok : ∃ buf, marshal p = .ok buf := by
    unfold marshal
    rw [if_neg (UInt16.not_lt.mpr hid)]
    rcases ht with ht | ht
    · rw [ht]
      exact ⟨_, rfl⟩
    · rw [ht]
      exact ⟨_, rfl⟩
  obtain ⟨buf, hm⟩ := hok
  exact List.ne_nil_of_mem (mem_sendPacketDirect.mpr hm)

namespace Lease

variable {rs : ReedSolomon} {cfg : Config} {idleTimeout phase late : Nat} {s s' : Lease}
  {e : LeaseEvent}

/-- At `due` a loop of the session runs: the one of the CLOSE goroutine, or `sendNakPeriodic` of a
starved block. -/
inductive Pulse (s : Lease) : Nat → Prop
  | close (hloop : s.session.tx.closer = .loop) : Pulse s s.closeDue
  | nak (g : UInt16) (due : Nat) (hdue : (g, due) ∈ s.nakDue) (hg : s.session.rx.Starving g) :
      Pulse s due

/-- The entry of a session one of whose loops has been active within its period. -/
structure Beating (late : Nat) (s : Lease) : Prop where
  listed : s.listed = true
  unanswered : s.session.Unanswered
  active : s.lastActive ≤ s.now
  pulse : ∃ due, s.Pulse due ∧ due ≤ s.lastActive + closeInterval ∧ s.now ≤ due + late

end Lease

/-- A run of one of the two loops. -/
def SessionEvent.isBeat : SessionEvent → Bool
  | .tx .closeTick | .rx (.nakRun _) => true
  | _ => false

section Beat

variable {rs : ReedSolomon} {cfg : Config} {s s' : Session} {g : UInt16} {out : List Bytes}

theorem Session.closeTick_sends (hs : s.step rs cfg (.tx .closeTick) = some (s', out))
    (hout : out ≠ []) :
    s' = s ∧ s.tx.closer = .loop := by
  cases stepped_of_step hs with
  | tx e eff hl hclose heff =>
    cases heff with
    | closeAnswered hc hr => exact absurd rfl hout
    | closeAgain hc hr => exact ⟨rfl, hc⟩
  | txClose e eff hl hclose heff => cases heff <;> cases hclose

/-- NAKs are sent for a starved block only. -/
theorem Session.nakRun_sends (hs : s.step rs cfg (.rx (.nakRun g)) = some (s', out))
    (hout : out ≠ []) :
    s' = s ∧ s.rx.Starving g := by
  cases stepped_of_step hs with
  | rx e eff heff =>
    simp only [Receiver.step, Option.ite_none_right_eq_some, Option.some.injEq] at heff
    obtain ⟨-, rfl⟩ := heff
    unfold Receiver.sendNakPeriodic at hout ⊢
    simp only at hout ⊢
    split at hout
    · exact absurd rfl hout
    · split at hout
      · exact absurd rfl hout
      · rename_i hdone _ b hb
        split at hout
        · exact absurd rfl hout
        · rename_i hdec
          split at hout
          · rename_i hshort
            rw [if_neg hdone]
            simp only [hdec, hshort, if_true]
            refine ⟨by simp, b, hb, by simpa using hdec, hshort, ?_⟩
            intro hnone
            simp [hnone] at hout
          · exact absurd rfl hout

/-- While nobody answers, both loops send whenever they run. -/
theorem Session.Unanswered.sends (h : s.Unanswered) (hid : cfg.streamID ≤ 0x0FFF) {e : SessionEvent}
    (he : e = .tx .closeTick ∧ s.tx.closer = .loop ∨ ∃ g, e = .rx (.nakRun g) ∧ s.rx.Starving g)
    (hs : s.step rs cfg e = some (s', out)) : out ≠ [] := by
  rcases he with ⟨rfl, hloop⟩ | ⟨g, rfl, b, hb, hstarved⟩
  · cases stepped_of_step hs with
    | tx e eff hl hclose heff =>
      cases heff with
      | closeAnswered hc hr => simp [h.closeRecv] at hr
      | closeAgain hc hr => exact sendPacketDirect_ne_nil (Or.inl rfl) hid
    | txClose e eff hl hclose heff => cases heff <;> cases hclose
  · cases stepped_of_step hs with
    | rx e eff heff =>
      simp only [Receiver.step, Option.ite_none_right_eq_some, Option.some.injEq] at heff
      obtain ⟨-, rfl⟩ := heff
      obtain ⟨i, hi⟩ := List.exists_mem_of_ne_nil _ hstarved.missing
      obtain ⟨a, ha⟩ := List.exists_mem_of_ne_nil _
        (@sendPacketDirect_ne_nil (Receiver.nakPacket cfg (b.seqNums.getD i 0)) (Or.inr rfl) hid)
      simp only [Receiver.sendNakPeriodic, h.cancelled, hb, hstarved.decoded, hstarved.short,
        if_true, Bool.false_eq_true, if_false]
      exact List.ne_nil_of_mem (List.mem_flatMap.mpr ⟨i, hi, ha⟩)

end Beat

namespace Lease

variable {rs : ReedSolomon} {cfg : Config} {idleTimeout phase late : Nat} {s s' : Lease}
  {e : LeaseEvent}

/-- **A loop that sends something keeps the entry alive and sets its next run.** -/
theorem pulse_of_sends {e : SessionEvent} {session : Session} {out : List Bytes}
    (he : e.isBeat = true) (hdue : s.isDue e = true)
    (hs : s.session.step rs cfg e = some (session, out)) (hout : out ≠ []) :
    (s.acted e session out).lastActive = s.now ∧
      ∃ due, (s.acted e session out).Pulse due ∧ due ≤ s.now + closeInterval ∧ s.now ≤ due := by
  have htouch : session.touches e out = true := by
    cases out with
    | nil => exact absurd rfl hout
    | cons a out => rfl
  refine ⟨by simp [acted, htouch], ?_⟩
  unfold SessionEvent.isBeat at he
  split at he
  · obtain ⟨rfl, hloop⟩ := Session.closeTick_sends hs hout
    have hle : s.closeDue ≤ s.now := by simpa [isDue] using hdue
    exact ⟨_, .close hloop, nextTick_le hle, Nat.le_of_lt (lt_nextTick (by decide))⟩
  · rename_i g
    obtain ⟨rfl, hg⟩ := Session.nakRun_sends hs hout
    obtain ⟨x, hx⟩ : ∃ x, s.nakAt g = some x := Option.isSome_iff_exists.mp hdue
    refine ⟨s.now + nakDelay, .nak g _ ?_ hg, ?_, ?_⟩
    · simp [acted, nextNaks, hx]
    · simp [nakDelay, closeInterval]
    · omega
  · cases he

/-- Another step leaves the run of a loop where it was. -/
theorem pulse_kept {e : SessionEvent} {session : Session} {out : List Bytes}
    (h : s.session.Unanswered) (hid : cfg.streamID ≤ 0x0FFF) (hsilent : Silent (.act e))
    (hdue : s.isDue e = true) (hs : s.session.step rs cfg e = some (session, out)) {due : Nat}
    (hp : s.Pulse due) :
    (s.acted e session out).Pulse due ∨ e.isBeat = true ∧ out ≠ [] := by
  cases hp with
  | close hloop =>
    have hloop' := h.loop hsilent hloop hs
    by_cases htick : e = .tx .closeTick
    · exact Or.inr ⟨by rw [htick]; rfl, h.sends hid (Or.inl ⟨htick, hloop⟩) hs⟩
    · left
      have hclose : s.nextClose e = s.closeDue := by
        unfold nextClose
        split
        · -- the goroutine is past its first CLOSE
          cases Session.stepped_of_step hs with
          | tx e eff hl hclose heff =>
            cases heff with
            | closeSend hc => cases hloop.symm.trans hc
          | txClose e eff hl hclose heff =>
            cases heff
            cases hclose
        · exact absurd rfl htick
        · rfl
      have hpulse := @Pulse.close (s.acted e session out) hloop'
      rwa [show (s.acted e session out).closeDue = s.closeDue from hclose] at hpulse
  | nak g due hmem hg =>
    have hg' := h.starving hsilent hg hs
    by_cases hrun : ∃ g', e = .rx (.nakRun g')
    · obtain ⟨g', rfl⟩ := hrun
      obtain ⟨x, hx⟩ : ∃ x, s.nakAt g' = some x := Option.isSome_iff_exists.mp hdue
      by_cases hown : x = (g, due)
      · have hfound := List.find?_some hx
        simp only [hown, Bool.and_eq_true, decide_eq_true_eq] at hfound
        obtain ⟨rfl, -⟩ := hfound
        exact Or.inr ⟨rfl, h.sends hid (Or.inr ⟨g, rfl, hg⟩) hs⟩
      · -- the check of another time is taken
        have hrest : (g, due) ∈ s.nakDue.erase x := (List.mem_erase_of_ne (Ne.symm hown)).mpr hmem
        refine Or.inl (.nak g due ?_ hg')
        simp only [acted, nextNaks, hx]
        split
        · exact List.mem_append_left _ hrest
        · exact hrest
    · left
      refine .nak g due ?_ hg'
      have hnaks : s.nextNaks session.rx.nakChecks e = s.nakDue ++
          (session.rx.nakChecks.drop s.session.rx.nakChecks.length).map fun g =>
          (g, s.now + nakDelay) := by
        unfold nextNaks
        split
        · rename_i g'
          exact absurd ⟨g', rfl⟩ hrun
        · rfl
      change (g, due) ∈ s.nextNaks session.rx.nakChecks e
      rw [hnaks]
      exact List.mem_append_left _ hmem

theorem Beating.act (h : s.Beating late) (hid : cfg.streamID ≤ 0x0FFF) {e : SessionEvent}
    {session : Session} {out : List Bytes} (hsilent : Silent (.act e)) (hdue : s.isDue e = true)
    (hs : s.session.step rs cfg e = some (session, out)) :
    (s.acted e session out).Beating late := by
  obtain ⟨due, hp, hlast, hnow⟩ := h.pulse
  have hmono := acted_lastActive h.active e session out
  refine ⟨h.listed, h.unanswered.step hsilent hs, hmono.2, ?_⟩
  rcases pulse_kept h.unanswered hid hsilent hdue hs hp with hkept | ⟨hbeat, hout⟩
  · exact ⟨due, hkept, by omega, hnow⟩
  · obtain ⟨hactive, due', hp', hle, hge⟩ := pulse_of_sends hbeat hdue hs hout
    exact ⟨due', hp', by omega, Nat.le_add_right_of_le hge⟩

/-- A session with such a loop is never idle for long. -/
theorem Beating.not_expired (h : s.Beating late) (hidle : closeInterval + late ≤ idleTimeout) :
    s.expired idleTimeout = false := by
  obtain ⟨due, -, hlast, hnow⟩ := h.pulse
  have hyoung : s.now - s.lastActive ≤ idleTimeout := by omega
  simpa [expired, h.unanswered.cancelled] using hyoung

/-- As long as nobody answers, the loop comes back in time to count as activity again. -/
theorem Beating.step (h : s.Beating late) (hid : cfg.streamID ≤ 0x0FFF)
    (hidle : closeInterval + late ≤ idleTimeout) (hok : s.Punctual late e) (hsilent : Silent e)
    (hs : s.step rs cfg idleTimeout e = some s') : s'.Beating late := by
  cases stepped_of_step hs with
  | pass d =>
    obtain ⟨due, hp, hlast, -⟩ := h.pulse
    refine ⟨h.listed, h.unanswered, Nat.le_add_right_of_le h.active, due, ?_, hlast, ?_⟩
    · cases hp with
      | close hloop => exact .close hloop
      | nak g due hmem hg => exact .nak g due hmem hg
    · cases hp with
      | close hloop => exact hok.2.1 hloop
      | nak g due hmem hg => exact hok.2.2 _ hmem
  | act e session out hdue hstep => exact h.act hid hsilent hdue hstep
  | reap hdue hl hx =>
    rw [h.not_expired hidle] at hx
    cases hx
  | spare hdue hspare =>
    obtain ⟨due, hp, hlast, hnow⟩ := h.pulse
    refine ⟨h.listed, h.unanswered, h.active, due, ?_, hlast, hnow⟩
    cases hp with
    | close hloop => exact .close hloop
    | nak g due hmem hg => exact .nak g due hmem hg
  | drop hc =>
    rw [h.unanswered.cancelled] at hc
    cases hc

theorem regular_of_reach {ok : Lease → LeaseEvent → Prop}
    (hr : Reach (lease rs cfg idleTimeout phase) ok s) :
    s.session.Regular := by
  refine hr.invariant (I := fun s => s.session.Regular) (Session.regular_new cfg) ?_
  intro s e s' h _ hs
  cases stepped_of_step hs with
  | pass d => exact h
  | act e session out hdue hstep => exact h.step hstep
  | reap hdue hl hx => exact @Session.Regular.step rs cfg _ _ .cancel [] h rfl
  | spare hdue hspare => exact h
  | drop hc => exact h

end Lease

/-- **Idle sessions.** A listed session has been active within `idleTimeout` and one interval of
`cleanupLoop`, and has ended no longer than one interval ago. But the CLOSE loop and the NAK loop
count as activity of the session: once one of them has sent something and nobody answers, the
session stays in the table for ever. -/
theorem idle_cleanup {rs : ReedSolomon} {cfg : Config} {idleTimeout phase late : Nat} {s : Lease}
    (hphase : phase ≤ cleanupInterval)
    (hr : Reach (lease rs cfg idleTimeout phase) (Lease.Punctual late) s) :
    (s.listed = true → s.now ≤ s.lastActive + idleTimeout + cleanupInterval + late) ∧
    (s.listed = true → ∀ t, s.closedAt = some t → s.now ≤ t + cleanupInterval + late) ∧
    ∀ (e : SessionEvent) (session : Session) (out : List Bytes), e.isBeat = true →
      s.isDue e = true → s.session.step rs cfg e = some (session, out) → out ≠ [] →
      s.listed = true → session.cancelled = false → session.tx.closeRecv = false →
      session.demux = .idle → cfg.streamID ≤ 0x0FFF → closeInterval + late ≤ idleTimeout →
      ∀ s', Reach { lease rs cfg idleTimeout phase with init := s.acted e session out }
          (fun s e => s.Punctual late e ∧ Lease.Silent e) s' →
        s'.listed = true ∧ s'.session.cancelled = false := by
  have hb : s.Bounded idleTimeout late := by
    refine hr.invariant (I := Lease.Bounded idleTimeout late) ?_ fun s e s' h hok hs =>
      h.step hok hs
    refine ⟨Nat.le_refl _, ?_, Nat.zero_le _, nofun, ?_, nofun⟩
    · simpa [lease] using hphase
    · intro _
      exact Nat.le_add_left_of_le hphase
  refine ⟨?_, ?_, ?_⟩
  · intro hl
    have hidle := hb.idle hl
    have hserved := hb.served
    omega
  · intro hl t ht
    have hclosed := (hb.closed hl t ht).2
    have hserved := hb.served
    omega
  · intro e session out he hdue hs hout hl hcancelled hrecv hdemux hid hidle s' hr'
    have hstart : (s.acted e session out).Beating late := by
      obtain ⟨hactive, due, hp, hle, hge⟩ := Lease.pulse_of_sends he hdue hs hout
      have hregular : session.Regular := (Lease.regular_of_reach hr).step hs
      refine ⟨hl, ⟨hregular, hcancelled, hrecv, hdemux⟩, Nat.le_of_eq hactive, due, hp, by omega,
        Nat.le_add_right_of_le hge⟩
    have hbeat : s'.Beating late := by
      refine hr'.invariant (I := Lease.Beating late) hstart ?_
      intro s e s' h hok hs
      exact h.step hid hidle hok.1 hok.2 hs
    exact ⟨hbeat.listed, hbeat.unanswered.cancelled⟩

/-- The local connection ends, and the peer never answers the CLOSE. -/
def closeUnanswered : List LeaseEvent :=
  [.act .launch, .act .start, .act (.tx .check), .act (.tx .eof), .act (.tx .finFlush),
    .act (.tx .finDrain), .act (.tx .finAcked), .act (.tx .closeSend), .act (.tx .closeMark),
    .act (.tx .closeFinish), .pass 300]

/-- With an idle timeout of 300 ms the entry outlives the sweep at 700 ms and all that follow. -/
theorem idle_cleanup_small :
    ∃ s session out, Reach (lease reedSolomonTwoOne smallConfig 300 700) (Lease.Punctual 0) s ∧
      s.session.step reedSolomonTwoOne smallConfig (.tx .closeTick) = some (session, out) ∧
      (∃ s', Reach
          { lease reedSolomonTwoOne smallConfig 300 700 with
            init := s.acted (.tx .closeTick) session out }
          (fun s e => s.Punctual 0 e ∧ Lease.Silent e) s' ∧ s'.now = 700 ∧ s'.sweepDue = 30700) ∧
      ∀ s', Reach
          { lease reedSolomonTwoOne smallConfig 300 700 with
            init := s.acted (.tx .closeTick) session out }
          (fun s e => s.Punctual 0 e ∧ Lease.Silent e) s' →
        s'.listed = true ∧ s'.session.cancelled = false := by
  obtain ⟨s, hr, hdue, hl, hstep⟩ : ∃ s,
      Reach (lease reedSolomonTwoOne smallConfig 300 700) (Lease.Punctual 0) s ∧
      s.isDue (.tx .closeTick) = true ∧ s.listed = true ∧
      (s.session.step reedSolomonTwoOne smallConfig (.tx .closeTick)).any (fun r =>
        decide (r.2 ≠ [] ∧ r.1.cancelled = false ∧ r.1.tx.closeRecv = false ∧ r.1.demux = .idle ∧
          (Machine.runOk
            { lease reedSolomonTwoOne smallConfig 300 700 with
              init := s.acted (.tx .closeTick) r.1 r.2 }
            (fun s e => s.Punctual 0 e ∧
              Lease.Silent e) (s.acted (.tx .closeTick) r.1 r.2) [.pass 300, .act (.tx .closeTick),
              .pass 100, .sweep]).any
              (fun s' => decide (s'.now = 700 ∧ s'.sweepDue = 30700)) = true)) = true :=
    Reach.exists_of_runOk _ closeUnanswered (by decide +kernel)
  rw [Option.any_eq_true] at hstep
  obtain ⟨⟨session, out⟩, hs, hfacts⟩ := hstep
  rw [decide_eq_true_eq] at hfacts
  obtain ⟨hout, hcancelled, hrecv, hdemux, hlater⟩ := hfacts
  refine ⟨s, session, out, hr, hs, ?_, ?_⟩
  · exact Reach.exists_of_runOk _ _ hlater
  · exact (idle_cleanup (by decide) hr).2.2 _ session out rfl hdue hs hout hl hcancelled hrecv
      hdemux (by decide) (by decide)

end TcpPep
