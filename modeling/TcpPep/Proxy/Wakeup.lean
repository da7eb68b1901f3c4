import TcpPep.Proxy.Slots

/-!
The wait of the writer.

`writeTCPRun` sleeps on `writeCond` until its block is decoded, the context is cancelled, or a CLOSE
has come and everything up to `maxRecvGrp` is written. The first lies under `muRecv`, the second is
a context, the third a flag under `muSend` and two fields under `muRecv`. `Waking` runs a session
with the pass of the writer through its wait loop in single steps, and with the threads that have
changed something and not broadcast yet. Contexts are cancelled by `Session.Close` only.

* `waking`: the machine;
* `pass_eq_wait`: a pass that nobody interrupts is the step `wait` of the session;
* `Waking.Vigilant`: what the writer knows at each point of its pass;
* `Overtakes`: a packet that is ahead of `maxRecvGrp` and behind the writer;
* `writer_never_oversleeps`: a sleeping writer has nothing to do, as long as no such packet comes;
* `overtaken_asleep`: the writer sleeps although it could leave.
-/

namespace TcpPep

open Protocol Fec FiniteMap Events

/-! ## The machine -/

/-- Where the writer stands in its wait loop. -/
inductive Pass where
  /-- outside the lock: not in the loop, or about to take `muRecv` -/
  | ready
  /-- holds `muRecv`, the context was not cancelled -/
  | holds
  /-- holds `muRecv`, its block is not decoded, and it has read `closeRecv` -/
  | read (closeRecv : Bool)
  /-- in `writeCond.Wait`, without the lock -/
  | asleep
  deriving DecidableEq

def Pass.locked : Pass → Bool
  | .holds | .read _ => true
  | _ => false

/-- `Broadcast`. -/
def Pass.woken : Pass → Pass
  | .asleep => .ready
  | pass => pass

structure Waking where
  session : Session
  pass : Pass := .ready
  /-- the call of `Close` that cancelled the context has not broadcast yet -/
  closing : Bool := false
  /-- `closeRecv` has been set, and `HandleClose` has not broadcast yet -/
  unannounced : Bool := false
  /-- the `HandleClose` that is running has broadcast -/
  announced : Bool := true

inductive WakeEvent where
  | session (e : SessionEvent)
  /-- the writer takes `muRecv` and tests the context -/
  | enter
  /-- it tests its block and reads `closeRecv` -/
  | look
  /-- it tests for the end and sleeps -/
  | sleep
  /-- the broadcast of the `Close` that cancelled the context -/
  | broadcastClose
  /-- the broadcast of a later `Close` -/
  | broadcastAgain
  /-- the broadcast of `HandleClose` -/
  | announce
  deriving DecidableEq

def Receiver.decodedAt (r : Receiver) (g : UInt16) : Bool :=
  ((r.rxBlocks.lookup g).map RxBlock.decoded).getD false

/-- The steps that take `muRecv`. -/
def SessionEvent.takesRecv : SessionEvent → Bool
  | .start => true
  | .recv p => decide (p.type = .data)
  | .rx (.lqrFire _) => false
  | .rx _ => true
  | _ => false

namespace Waking

/-- Whether a step of another goroutine may come now. The pass of the writer has its own steps;
`HandleClose` goes on after its broadcast. -/
def admits (s : Waking) (e : SessionEvent) : Bool :=
  decide (e ≠ .rx .wait) && !(s.pass.locked && e.takesRecv) &&
    (decide (e ≠ .finishHandler) || s.announced)

/-- `tryDecodeBlock` broadcasts when it sets `Decoded`. -/
def decodes (s : Waking) (e : SessionEvent) (s' : Session) : Bool :=
  match e with
  | .recv p =>
    decide (p.type = .data) && !s.session.rx.decodedAt p.groupID && s'.rx.decodedAt p.groupID
  | _ => false

def observe (s : Waking) (e : SessionEvent) (s' : Session) : Waking :=
  { session := s'
    pass := if s.decodes e s' then s.pass.woken else s.pass
    closing := s.closing || (!s.session.cancelled && s'.cancelled)
    unannounced := s.unannounced || (!s.session.tx.closeRecv && s'.tx.closeRecv)
    announced := match e with
      | .recv p => s.announced && decide (p.type ≠ .close)
      | _ => s.announced }

/-- The writer leaves the wait loop and gives the lock back. -/
def depart (s : Waking) (w : Writer) : Waking :=
  { s with session := { s.session with rx := { s.session.rx with writer := w } }, pass := .ready }

def step (rs : ReedSolomon) (cfg : Config) (s : Waking) : WakeEvent → Option Waking
  | .session e =>
    if s.admits e then (s.session.step rs cfg e).map fun r => s.observe e r.1 else none
  | .enter =>
    if s.pass = .ready ∧ s.session.rx.writer = .wait then
      if s.session.cancelled then some (s.depart (.leave .cancelled))
      else some { s with pass := .holds }
    else none
  | .look =>
    if s.pass = .holds then
      if s.session.rx.decodedAt s.session.rx.nextWriteGrp then some (s.depart (.write 0))
      else some { s with pass := .read s.session.tx.closeRecv }
    else none
  | .sleep =>
    match s.pass with
    | .read closeRecv =>
      if closeRecv && s.session.rx.drained then some (s.depart (.leave .closeRecv))
      else some { s with pass := .asleep }
    | _ => none
  | .broadcastClose =>
    if s.closing && !s.pass.locked then some { s with closing := false, pass := s.pass.woken }
    else none
  | .broadcastAgain =>
    if s.session.cancelled && !s.pass.locked then some { s with pass := s.pass.woken } else none
  | .announce =>
    if !s.announced && !s.pass.locked then
      some { s with announced := true, unannounced := false, pass := s.pass.woken }
    else none

end Waking

def waking (rs : ReedSolomon) (cfg : Config) : Machine Waking WakeEvent where
  init := { session := newSession cfg }
  step := Waking.step rs cfg

section Pass

variable {rs : ReedSolomon} {cfg : Config} {s : Waking}

/-- A pass that nobody interrupts is the step `wait` of the session, and ends asleep if the writer
stays. -/
theorem pass_eq_wait (hw : s.session.rx.writer = .wait) (hp : s.pass = .ready) :
    ∃ es s', (waking rs cfg).runOk (fun _ _ => True) s es = some s' ∧
      s.session.step rs cfg (.rx .wait) = some (s'.session, []) ∧
      (s'.pass = .asleep ↔ s'.session.rx.writer = .wait) := by
  have hstep : s.session.step rs cfg (.rx .wait) =
      some ({ s.session with rx := s.session.rx.waitStep s.session.cancelled s.session.tx.closeRecv
        }, []) := by
    simp [Session.step, Receiver.step, hw, Session.applyRx]
  rw [hstep]
  cases hc : s.session.cancelled with
  | true =>
    refine ⟨[.enter], s.depart (.leave .cancelled), ?_, ?_, ?_⟩
    · simp [Machine.runOk, waking, Waking.step, hp, hw, hc]
    · simp [Waking.depart, Receiver.waitStep]
    · simp [Waking.depart]
  | false =>
    cases hdec : s.session.rx.decodedAt s.session.rx.nextWriteGrp with
    | true =>
      refine ⟨[.enter, .look], s.depart (.write 0), ?_, ?_, ?_⟩
      · simp [Machine.runOk, waking, Waking.step, Waking.depart, hp, hw, hc, hdec]
      · have hdec' : (s.session.rx.current.map RxBlock.decoded).getD false = true := hdec
        simp [Waking.depart, Receiver.waitStep, hdec']
      · simp [Waking.depart]
    | false =>
      have hdec' : (s.session.rx.current.map RxBlock.decoded).getD false = false := hdec
      cases hend : (s.session.tx.closeRecv && s.session.rx.drained) with
      | true =>
        refine ⟨[.enter, .look, .sleep], s.depart (.leave .closeRecv), ?_, ?_, ?_⟩
        · have hboth : s.session.tx.closeRecv = true ∧ s.session.rx.drained = true := by
            simpa using hend
          simp [Machine.runOk, waking, Waking.step, Waking.depart, hp, hw, hc, hdec, hboth]
        · simp [Waking.depart, Receiver.waitStep, hdec', hend]
        · simp [Waking.depart]
      | false =>
        refine ⟨[.enter, .look, .sleep], { s with pass := .asleep }, ?_, ?_, ?_⟩
        · have hnot : s.session.tx.closeRecv = true → s.session.rx.drained = false := by
            simpa using hend
          simp +contextual [Machine.runOk, waking, Waking.step, hp, hw, hc, hdec, hnot]
        · simp [Receiver.waitStep, hdec', hend]
        · simp [hw]

end Pass

/-! ## What happens beside a waiting writer -/

/-- A step that gives a waiting writer nothing to do. -/
structure Receiver.Beside (r r' : Receiver) : Prop where
  writer : r'.writer = r.writer
  next : r'.nextWriteGrp = r.nextWriteGrp
  drained : r'.drained = r.drained
  undecoded : ∀ g, r.decodedAt g = false → r'.decodedAt g = false

namespace Receiver

variable {rs : ReedSolomon} {cfg : Config} {r : Receiver}

theorem Beside.rfl : Beside r r := ⟨by rfl, by rfl, by rfl, fun _ => id⟩

theorem decodedAt_eq_false {g : UInt16} :
    r.decodedAt g = false ↔ ∀ b, r.rxBlocks.lookup g = some b → b.decoded = false := by
  unfold decodedAt
  cases r.rxBlocks.lookup g with
  | none => simp
  | some b => simp

theorem beside_timers {t : Table UInt16 RxBlock} (cbs naks : List UInt16)
    (hsame : SameCores r.rxBlocks t) :
    Beside r { r with rxBlocks := t, lqrCallbacks := cbs, nakChecks := naks } where
  writer := by rfl
  next := by rfl
  drained := by rfl
  undecoded g hg := by
    rw [decodedAt_eq_false] at hg ⊢
    intro b' hb'
    obtain ⟨b, hb, hcore⟩ := hsame.lookup hb'
    rw [(RxBlock.core_fields hcore).2.2.2.1]
    exact hg b hb

theorem startInit_beside : Beside r (startInit cfg r) := by
  unfold startInit
  split
  · refine ⟨by rfl, by rfl, by rfl, fun g hg => ?_⟩
    rw [decodedAt_eq_false] at hg ⊢
    intro b hb
    rw [lookup_insert_eq] at hb
    split at hb
    · cases hb
      rfl
    · exact hg b hb
  · exact .rfl

/-- While the writer waits, only its own pass moves it. -/
theorem step_beside {done closeRecv : Bool} {e : RxEvent} {eff : Effect Receiver}
    (hw : r.writer = .wait) (hne : e ≠ .wait) (hs : r.step cfg done closeRecv e = some eff) :
    Beside r eff.state := by
  cases e with
  | wait => exact absurd rfl hne
  | lqrFire g | lqrRun g | nakRun g =>
    obtain ⟨t, cbs, naks, heq, hsame⟩ := step_timers (g := g) (by simp) hs
    rw [heq]
    exact beside_timers cbs naks hsame
  | _ => simp [step, hw] at hs

/-- A DATA packet leaves the writer and the other blocks alone. -/
theorem Intake.frame {p : Packet} {r' : Receiver} (h : Intake rs cfg r p r') :
    r'.writer = r.writer ∧ r'.nextWriteGrp = r.nextWriteGrp ∧
      ∀ g, g ≠ p.groupID → r'.decodedAt g = r.decodedAt g := by
  obtain ⟨top, has, hnote⟩ := r.noteGroup_eq p.groupID
  cases h with
  | closed hclosed => exact ⟨rfl, rfl, fun _ _ => rfl⟩
  | old hold =>
    rw [hnote]
    exact ⟨rfl, rfl, fun _ _ => rfl⟩
  | take hnew =>
    rw [hnote]
    refine ⟨rfl, rfl, fun g hg => ?_⟩
    simp only [decodedAt, lookup_insert_eq, if_neg hg]

/-- The group of a packet, ahead of what came before and behind the writer. -/
def Overtaken (r : Receiver) (p : Packet) : Prop :=
  r.recvClosed = false ∧ after p.groupID r.maxRecvGrp = true ∧ after r.nextWriteGrp p.groupID = true

theorem Overtaken.handleDataPacket {p : Packet} (h : Overtaken r p) :
    r.handleDataPacket rs cfg p = { r with maxRecvGrp := p.groupID, hasRecv := true } := by
  obtain ⟨hopen, hahead, hbehind⟩ := h
  have hnote : r.noteGroup p.groupID = { r with maxRecvGrp := p.groupID, hasRecv := true } := by
    cases hhas : r.hasRecv with
    | true => simp [noteGroup, hhas, hahead]
    | false => simp [noteGroup, hhas]
  simp [Receiver.handleDataPacket, hopen, hnote, hbehind]

theorem noteGroup_drained {g : UInt16} (hd : r.drained = false) : (r.noteGroup g).drained = true ↔
    after g r.maxRecvGrp = true ∧ after r.nextWriteGrp g = true := by
  simp only [drained, Bool.or_eq_false_iff, Bool.not_eq_false'] at hd
  obtain ⟨hhas, hafter⟩ := hd
  cases hg : after g r.maxRecvGrp with
  | true => simp [noteGroup, drained, hhas, hg]
  | false => simp [noteGroup, drained, hhas, hg, hafter]

/-- **The packet that moves the end.** It lets the writer leave and is dropped. -/
theorem drained_handleDataPacket {p : Packet} (hd : r.drained = false) :
    (r.handleDataPacket rs cfg p).drained = true ↔ Overtaken r p := by
  cases hopen : r.recvClosed with
  | true => simp [handleDataPacket, Overtaken, hopen, hd]
  | false =>
    have heq : (r.handleDataPacket rs cfg p).drained = (r.noteGroup p.groupID).drained := by
      unfold handleDataPacket
      simp only [hopen, Bool.false_eq_true, ↓reduceIte]
      split <;> rfl
    rw [heq, noteGroup_drained hd, Overtaken]
    simp [hopen]

end Receiver

section Session

variable {rs : ReedSolomon} {cfg : Config} {s s' : Session} {e : SessionEvent} {out : List Bytes}

theorem Session.step_beside (hl : s.launched = true) (hw : s.rx.writer = .wait)
    (hne : e ≠ .rx .wait) (hs : s.step rs cfg e = some (s', out)) :
    Receiver.Beside s.rx s'.rx ∨
      ∃ p, e = .recv p ∧ p.type = .data ∧ s'.rx = s.rx.handleDataPacket rs cfg p := by
  have hchange := (Session.step_rxChange hs).1
  generalize s'.rx = r' at hchange ⊢
  cases hchange with
  | same => exact Or.inl .rfl
  | launch hl' =>
    rw [hl] at hl'
    cases hl'
  | start => exact Or.inl Receiver.startInit_beside
  | step ev eff heff => exact Or.inl (Receiver.step_beside hw (fun h => hne (by rw [h])) heff)
  | data p ht => exact Or.inr ⟨p, rfl, ht, rfl⟩

end Session

/-! ## What the writer knows -/

namespace Waking

/-- A packet that lets the sleeping writer leave, with nothing to wake it. -/
def Overtakes (s : Waking) : WakeEvent → Prop
  | .session (.recv p) =>
    p.type = .data ∧ s.pass = .asleep ∧ s.unannounced = false ∧ s.session.tx.closeRecv = true ∧
      s.session.rx.Overtaken p
  | _ => False

/-- What the writer has seen on its pass still holds, unless somebody is about to broadcast. -/
structure Vigilant (s : Waking) : Prop where
  idle : s.session.launched = false → s.session.rx.writer = .idle
  waiting : s.pass ≠ .ready → s.session.rx.writer = .wait
  live : s.pass ≠ .ready → s.closing = false → s.session.cancelled = false
  undecoded : s.pass ≠ .ready → s.pass ≠ .holds →
    s.session.rx.decodedAt s.session.rx.nextWriteGrp = false
  read : ∀ c, s.pass = .read c → s.unannounced = false → s.session.tx.closeRecv = true → c = true
  undrained : s.pass = .asleep → s.unannounced = false → s.session.tx.closeRecv = true →
    s.session.rx.drained = false

variable {rs : ReedSolomon} {cfg : Config} {s : Waking}

theorem Vigilant.of_ready (hidle : s.session.launched = false → s.session.rx.writer = .idle)
    (hp : s.pass = .ready) :
    s.Vigilant where
  idle := hidle
  waiting h := absurd hp h
  live h := absurd hp h
  undecoded h := absurd hp h
  read c h := by simp [hp] at h
  undrained h := by simp [hp] at h

theorem vigilant_init : (waking rs cfg).init.Vigilant := .of_ready (fun _ => rfl) rfl

/-- A writer that stays where it is was not woken. -/
theorem decodes_of_stay {e : SessionEvent} {s' : Session} (hadm : s.admits e = true)
    (hp : (s.observe e s').pass ≠ .ready) :
    s.decodes e s' = false ∧ (s.observe e s').pass = s.pass := by
  cases hd : s.decodes e s' with
  | false => simp [observe, hd]
  | true =>
    exfalso
    simp only [observe, hd, ↓reduceIte] at hp
    have htakes : e.takesRecv = true := by
      cases e with
      | recv p =>
        simp only [decodes, Bool.and_eq_true] at hd
        exact hd.1.1
      | _ => simp [decodes] at hd
    simp only [admits, htakes, Bool.and_true, Bool.and_eq_true, Bool.not_eq_true'] at hadm
    have hfree := hadm.1.2
    cases hpass : s.pass with
    | ready => simp [hpass, Pass.woken] at hp
    | asleep => simp [hpass, Pass.woken] at hp
    | holds => simp [hpass, Pass.locked] at hfree
    | read c => simp [hpass, Pass.locked] at hfree

/-- What a step of another goroutine leaves of the writer's view. -/
theorem Vigilant.beside {e : SessionEvent} {s' : Session} {out : List Bytes} (h : s.Vigilant)
    (hadm : s.admits e = true) (hs : s.session.step rs cfg e = some (s', out))
    (hp : (s.observe e s').pass ≠ .ready) :
    s'.rx.writer = .wait ∧
      (s.session.rx.decodedAt s.session.rx.nextWriteGrp = false →
        s'.rx.decodedAt s'.rx.nextWriteGrp = false) ∧
      (s.session.rx.drained = false → s'.rx.drained = true →
        ∃ p, e = .recv p ∧ p.type = .data ∧ s.session.rx.Overtaken p) := by
  obtain ⟨hdec, hpass⟩ := decodes_of_stay hadm hp
  have hw := h.waiting (hpass ▸ hp)
  have hl : s.session.launched = true := by
    cases hl : s.session.launched with
    | true => rfl
    | false => simp [h.idle hl] at hw
  have hne : e ≠ .rx .wait := by
    simp only [admits, Bool.and_eq_true, decide_eq_true_eq] at hadm
    exact hadm.1.1
  rcases Session.step_beside hl hw hne hs with hb | ⟨p, rfl, ht, hrx⟩
  · refine ⟨hb.writer.trans hw, ?_, ?_⟩
    · rw [hb.next]
      exact hb.undecoded _
    · intro hd hd'
      rw [hb.drained, hd] at hd'
      cases hd'
  · obtain ⟨hwriter, hnext, hothers⟩ := (s.session.rx.handleDataPacket_intake rs cfg p).frame
    rw [← hrx] at hwriter hnext hothers
    refine ⟨hwriter.trans hw, fun hu => ?_, fun hd hd' => ?_⟩
    · rw [hnext]
      by_cases hg : s.session.rx.nextWriteGrp = p.groupID
      · -- the packet is for the writer's block: it would have been woken
        rw [hg] at hu ⊢
        simpa [decodes, ht, hu] using hdec
      · rw [hothers _ hg]
        exact hu
    · rw [hrx, Receiver.drained_handleDataPacket hd] at hd'
      exact ⟨p, rfl, ht, hd'⟩

theorem Vigilant.observe {e : SessionEvent} {s' : Session} {out : List Bytes} (h : s.Vigilant)
    (hadm : s.admits e = true) (hs : s.session.step rs cfg e = some (s', out))
    (hok : ¬ s.Overtakes (.session e)) :
    (s.observe e s').Vigilant := by
  have hidle := Session.step_idle h.idle hs
  by_cases hp : (s.observe e s').pass = .ready
  · exact .of_ready hidle hp
  obtain ⟨-, hpass⟩ := decodes_of_stay hadm hp
  obtain ⟨hwriter, hundec, hend⟩ := h.beside hadm hs hp
  -- a flag that is set by this step is pending after it
  have hflag : ∀ {pending old new : Bool}, (pending || (!old && new)) = false →
      pending = false ∧ (new = true → old = true) := by
    decide
  refine ⟨hidle, fun _ => hwriter, fun _ hpending => ?_, ?_, ?_, ?_⟩
  · obtain ⟨hc, hmono⟩ := hflag hpending
    have hlive := h.live (hpass ▸ hp) hc
    exact Bool.eq_false_iff.mpr fun hc' => by simp [hmono hc'] at hlive
  · rw [hpass]
    exact fun hp' hh => hundec (h.undecoded hp' hh)
  · intro c hread hpending hcl
    rw [hpass] at hread
    obtain ⟨hu, hmono⟩ := hflag hpending
    exact h.read c hread hu (hmono hcl)
  · intro hasleep hpending hcl
    rw [hpass] at hasleep
    obtain ⟨hu, hmono⟩ := hflag hpending
    refine Bool.eq_false_iff.mpr fun hd => ?_
    obtain ⟨p, rfl, ht, hover⟩ := hend (h.undrained hasleep hu (hmono hcl)) hd
    exact hok ⟨ht, hasleep, hu, hmono hcl, hover⟩

/-- A broadcast with the lock free: the writer is not asleep after it. -/
theorem Vigilant.woken (h : s.Vigilant) (hfree : s.pass.locked = false)
    (closing unannounced announced : Bool) :
    Vigilant { s with pass := s.pass.woken, closing, unannounced, announced } := by
  refine .of_ready h.idle ?_
  cases hp : s.pass with
  | ready | asleep => rfl
  | holds | read c => simp [hp, Pass.locked] at hfree

theorem Vigilant.depart (h : s.Vigilant) (hw : s.session.rx.writer = .wait) (w : Writer) :
    (s.depart w).Vigilant := by
  refine .of_ready (fun hl => ?_) rfl
  have hidle := h.idle hl
  rw [hw] at hidle
  cases hidle

theorem Vigilant.step {e : WakeEvent} {s' : Waking} (h : s.Vigilant)
    (hs : s.step rs cfg e = some s') (hok : ¬ s.Overtakes e) : s'.Vigilant := by
  cases e with
  | session e =>
    simp only [Waking.step, Option.ite_none_right_eq_some, Option.map_eq_some_iff] at hs
    obtain ⟨hadm, ⟨t, out⟩, ht, rfl⟩ := hs
    exact h.observe hadm ht hok
  | enter =>
    simp only [Waking.step, Option.ite_none_right_eq_some] at hs
    obtain ⟨⟨-, hw⟩, hs⟩ := hs
    split at hs
    · cases hs
      exact h.depart hw _
    · rename_i hc
      cases hs
      exact ⟨h.idle, fun _ => hw, fun _ _ => by simpa using hc, by simp, by simp, by simp⟩
  | look =>
    simp only [Waking.step, Option.ite_none_right_eq_some] at hs
    obtain ⟨hp, hs⟩ := hs
    have hready : s.pass ≠ .ready := by simp [hp]
    split at hs
    · cases hs
      exact h.depart (h.waiting hready) _
    · rename_i hdec
      cases hs
      refine ⟨h.idle, fun _ => h.waiting hready, fun _ => h.live hready, fun _ _ => by
        simpa using hdec, ?_, by simp⟩
      rintro c hread - hcl
      cases hread
      exact hcl
  | sleep =>
    simp only [Waking.step] at hs
    split at hs
    · rename_i c hp
      have hready : s.pass ≠ .ready := by simp [hp]
      split at hs
      · cases hs
        exact h.depart (h.waiting hready) _
      · rename_i hend
        cases hs
        refine ⟨h.idle, fun _ => h.waiting hready, fun _ => h.live hready,
          fun _ _ => h.undecoded hready (by simp [hp]), by simp, fun _ hu hcl => ?_⟩
        rw [h.read c hp hu hcl] at hend
        simpa using hend
    · cases hs
  | broadcastClose | broadcastAgain | announce =>
    simp only [Waking.step, Option.ite_none_right_eq_some, Option.some.injEq, Bool.and_eq_true,
      Bool.not_eq_true'] at hs
    obtain ⟨⟨-, hfree⟩, rfl⟩ := hs
    exact h.woken hfree _ _ _

theorem vigilant_of_reach (hr : Reach (waking rs cfg) (fun s e => ¬ s.Overtakes e) s) :
    s.Vigilant :=
  hr.invariant vigilant_init fun _ _ _ h hok hs => h.step hs hok

/-- The writer sleeps, and whoever changed something has broadcast. -/
def Dormant (s : Waking) : Prop := s.pass = .asleep ∧ s.closing = false ∧ s.unannounced = false

instance (s : Waking) : Decidable s.Dormant := inferInstanceAs (Decidable (_ ∧ _ ∧ _))

/-- The writer could leave the loop at the end of the stream. -/
def CanLeave (s : Waking) : Prop :=
  s.session.tx.closeRecv = true ∧
    (s.session.rx.hasRecv = false ∨ after s.session.rx.nextWriteGrp s.session.rx.maxRecvGrp = true)

instance (s : Waking) : Decidable s.CanLeave := inferInstanceAs (Decidable (_ ∧ (_ ∨ _)))

theorem canLeave_iff : s.CanLeave ↔ s.session.tx.closeRecv = true ∧
    s.session.rx.drained = true := by
  simp [CanLeave, Receiver.drained]

instance (s : Waking) (e : WakeEvent) : Decidable (s.Overtakes e) :=
  match e with
  | .session (.recv p) =>
    inferInstanceAs (Decidable (p.type = .data ∧ s.pass = .asleep ∧ s.unannounced = false ∧
      s.session.tx.closeRecv = true ∧ s.session.rx.recvClosed = false ∧
      after p.groupID s.session.rx.maxRecvGrp = true ∧
      after s.session.rx.nextWriteGrp p.groupID = true))
  | .session .launch | .session .start | .session (.tx _) | .session
      (.rx _) | .session .finishHandler
  | .session .cancel | .enter | .look | .sleep | .broadcastClose | .broadcastAgain | .announce =>
    .isFalse id

/-- A packet that overtakes leaves the writer asleep with nothing to wait for. -/
theorem Overtakes.canLeave {e : WakeEvent} {s' : Waking} (hover : s.Overtakes e)
    (hc : s.closing = false)
    (hs : s.step rs cfg e = some s') : s'.Dormant ∧ s'.CanLeave := by
  cases e with
  | session e =>
    cases e with
    | recv p =>
      obtain ⟨ht, hasleep, hu, hcl, hpacket⟩ := hover
      simp only [Waking.step, Session.step, Option.ite_none_right_eq_some, Option.map_eq_some_iff,
        Option.some.injEq] at hs
      obtain ⟨-, -, ⟨-, rfl⟩, rfl⟩ := hs
      have hhandle : s.session.handle rs cfg p =
          { s.session with
            rx := { s.session.rx with maxRecvGrp := p.groupID, hasRecv := true } } := by
        simp only [Session.handle, ht, hpacket.handleDataPacket]
      have hdec : s.decodes (.recv p) (s.session.handle rs cfg p) = false := by
        simp [hhandle, decodes, Receiver.decodedAt]
      refine ⟨⟨?_, ?_, ?_⟩, ?_⟩
      · simp [observe, hdec, hasleep]
      · simp [observe, hhandle, hc]
      · simp [observe, hhandle, hu]
      · simp [CanLeave, observe, hhandle, hcl, hpacket.2.2]
    | _ => exact absurd hover id
  | _ => exact absurd hover id

end Waking

/-! ## The sleeping writer -/

/-- **A sleeping writer has nothing to do.** In every run without a packet that is ahead of
`maxRecvGrp` and behind the writer, whenever the writer sleeps and every change has been broadcast,
its block is not there or not decoded, the context is alive and the stream is not at its end. Such a
packet leaves the writer asleep at the end of the stream. -/
theorem writer_never_oversleeps (rs : ReedSolomon) (cfg : Config) :
    (∀ s, Reach (waking rs cfg) (fun s e => ¬ s.Overtakes e) s → s.Dormant →
      (∀ b, s.session.rx.rxBlocks.lookup s.session.rx.nextWriteGrp = some b → b.decoded = false) ∧
        s.session.cancelled = false ∧ ¬ s.CanLeave) ∧
      ∀ s e s', s.closing = false → (waking rs cfg).step s e = some s' → s.Overtakes e →
      s'.Dormant ∧ s'.CanLeave := by
  constructor
  · rintro s hr ⟨hasleep, hc, hu⟩
    have h := Waking.vigilant_of_reach hr
    have hready : s.pass ≠ .ready := by simp [hasleep]
    refine ⟨Receiver.decodedAt_eq_false.mp (h.undecoded hready (by simp [hasleep])),
      h.live hready hc, ?_⟩
    rw [Waking.canLeave_iff]
    rintro ⟨hcl, hd⟩
    rw [h.undrained hasleep hu hcl] at hd
    cases hd
  · intro s e s' hc hs hover
    exact hover.canLeave hc hs

/-- The first packet of group 20000 and a CLOSE have come, and the writer sleeps before group 0. -/
def closedAhead : List WakeEvent :=
  [.session .launch, .session .start,
    .session (.recv (dataPacket smallConfig 20000 0 0 (frame [7]))),
    .session (.recv { type := .close, streamID := smallConfig.streamID }), .announce,
    .session .finishHandler, .enter, .look, .sleep]

/-- The writer sleeps after the CLOSE and waits for group 0. -/
theorem writer_sleeps_after_close :
    ∃ s, Reach (waking reedSolomonTwoOne smallConfig) (fun s e => ¬ s.Overtakes e) s ∧ s.Dormant ∧
      s.session.tx.closeRecv = true ∧
      (∀ b, s.session.rx.rxBlocks.lookup s.session.rx.nextWriteGrp = some b → b.decoded = false) ∧
      s.session.cancelled = false ∧ ¬ s.CanLeave := by
  obtain ⟨s, hr, hdormant, hcl⟩ : ∃ s,
      Reach (waking reedSolomonTwoOne smallConfig) (fun s e => ¬ s.Overtakes e) s ∧
      s.Dormant ∧ s.session.tx.closeRecv = true :=
    Reach.exists_of_runOk _ closedAhead (by decide +kernel)
  exact ⟨s, hr, hdormant, hcl,
    (writer_never_oversleeps reedSolomonTwoOne smallConfig).1 s hr hdormant⟩

/-- Then a packet of group 40000 comes. It moves `maxRecvGrp` behind the writer and is dropped as
old: the writer is at the end of the stream, and asleep. -/
theorem overtaken_asleep :
    ∃ s, Reach (waking reedSolomonTwoOne smallConfig) (fun _ _ => True) s ∧ s.Dormant ∧
    s.CanLeave :=
  Reach.exists_of_runOk _
    (closedAhead ++ [.session (.recv (dataPacket smallConfig 40000 0 0 (frame [7])))])
    (by decide +kernel)

end TcpPep
