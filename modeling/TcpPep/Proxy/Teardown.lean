import TcpPep.Lib.Ranking
import TcpPep.Proxy.Repair
import TcpPep.Proxy.Window

/-!
The end of a session.

Nobody joins the goroutines of a session: `Close` cancels the context, and the reader, the writer,
the shaper's `Run`, the CLOSE goroutine, the block timers, the LQR timers and the NAK chains are
expected to see it and stop. `Session.work` counts what they may still do. Every step of theirs
lowers it, except for a CLOSE that is sent once more because the ticker and the context are both
ready.

* `Session.work`: what is left to do after a cancellation;
* `Session.work_step`: the step lemma;
* `Session.Ended`: nothing is left that could run;
* `teardown_terminates`: a cancelled session comes to its end, and a session in which nothing can
  run has ended.
-/

namespace TcpPep

open Protocol Fec FiniteMap Events

/-! ## What is left to do -/

def Reader.work : Reader → Nat
  | .idle | .returned => 0
  | .check => 1
  -- it may still start the CLOSE goroutine
  | .finAck => 5
  | .finDrain => 6
  | .finFlush => 7
  -- a read may still start a block timer
  | .read => 8

def Closer.work : Closer → Nat
  | .idle | .returned => 0
  | .loop => 1
  | .finish _ => 2
  | .mark => 3
  | .first => 4

def RunState.work : RunState → Nat
  | .returned => 0
  | .wait => 1
  | .sending _ => 2
  | .ready _ _ => 3

/-- The writer, in a block of `k` slots. -/
def Writer.work (k : Nat) : Writer → Nat
  | .idle | .returned _ => 0
  | .leave _ => 1
  | .wait => 2
  | .finish => 3
  -- its report may still start a NAK chain
  | .report => 5
  | .cleanup => 6
  | .write i => 7 + (k - i)

/-- A block timer expires and then runs its callback. -/
def Sender.work (s : Sender) : Nat :=
  s.reader.work + s.closer.work + s.run.work + (if s.blockTimer = .armed then 2
    else 0) + 2 * s.looseTimers + s.callbacks

/-- An LQR timer expires, runs its callback and then the NAK check that it schedules. -/
def RxBlock.timerWork (b : RxBlock) : Nat := if b.lqrTimer = .armed then 3 else 0

def Receiver.work (r : Receiver) : Nat :=
  r.writer.work ((r.current.map RxBlock.k).getD 0) + weight RxBlock.timerWork r.rxBlocks +
    2 * r.lqrCallbacks.length + r.nakChecks.length

def Session.work (s : Session) : Nat :=
  s.tx.work + s.rx.work + (if s.launched then 0 else 4) + (if s.started then 0 else 4) +
    if s.demux = .idle then 0 else 1

/-! ## The sending half -/

namespace Sender

variable {rs : ReedSolomon} {cfg : Config} {s : Sender}

theorem flush_work : (s.flushPendingBlockLocked rs cfg).work = s.work := by
  unfold flushPendingBlockLocked
  split
  · rfl
  · cases henc : Fec.encode rs cfg.fecK s.curM (s.paddedPending cfg) with
    | none => simp [work, henc]
    | some parityShards => simp [work, henc]

theorem startBlockTimer_work : s.startBlockTimer.work = s.work + 2 := by
  unfold startBlockTimer work
  by_cases h : s.blockTimer = .armed
  · simp only [h, if_true]
    omega
  · simp only [h, if_true, if_false]
    omega

theorem unset_work (s : Sender) : work { s with blockTimer := .unset } ≤ s.work := by
  simp only [work, reduceCtorEq, if_false]
  omega

/-- A read starts at most one timer. -/
theorem readTCP_work (data : Bytes) : (s.readTCP rs cfg data).work ≤ s.work + 2 := by
  have happ : ∀ s₁ : Sender, s₁.work ≤ s.work + 2 →
      (if s₁.pendingData.length ≥ cfg.fecK then
        flushPendingBlockLocked rs cfg { s₁ with blockTimer := .unset }
        else s₁).work ≤ s.work + 2 := by
    intro s₁ h₁
    split
    · rw [flush_work]
      exact Nat.le_trans s₁.unset_work h₁
    · exact h₁
  unfold readTCP
  simp only
  split
  · exact happ _ (by rw [startBlockTimer_work]; exact Nat.le_refl _)
  · exact happ _ (Nat.le_add_right _ _)

/-- **Step lemma for the sending half** after a cancellation. -/
theorem Stepped.work {e : TxEvent} {eff : Effect Sender} (h : Stepped rs cfg true s e eff) :
    eff.state.work + (if e = .closeTick then 0 else 1) ≤ s.work := by
  cases h with
  | check hr hd hq => cases hd
  | finFlush hr hd => cases hd
  | read data hr hne hle =>
    have hread : (s.readTCP rs cfg data).work ≤ s.work + 2 := readTCP_work data
    have hreader : (s.readTCP rs cfg data).reader = s.reader := by
      obtain ⟨timer, loose, heq⟩ := readTCP_eq rs cfg s data
      rw [heq]
      split
      · rfl
      · exact flush_reader ..
    simp only [Sender.work, hreader, hr, Reader.work] at hread ⊢
    simp only [reduceCtorEq, if_false]
    omega
  | timerRun hc =>
    rw [flush_work]
    simp only [Sender.work, reduceCtorEq, if_false]
    omega
  | shaper e shaper run out hrun =>
    have hlow : run.work + 1 ≤ s.run.work := by
      have hran := Shaper.ran_of_runStep hrun
      generalize s.run = r at hran
      cases hran with
      | poll hs hd hq => cases hd
      | send pkt pkts hd => cases hd
      | _ => simp [RunState.work]
    simp only [Sender.work, reduceCtorEq, if_false]
    omega
  | closeAgain hc hr => simp
  | readerQuit hq hd =>
    have hpos : 1 ≤ s.reader.work := by
      cases hreader : s.reader <;> simp [hreader, Reader.quits, Reader.work] at hq ⊢
    simp only [Sender.work, show Reader.returned.work = 0 from rfl, reduceCtorEq, if_false]
    omega
  | timerFire ht =>
    simp only [Sender.work, ht, reduceCtorEq, if_true, if_false]
    omega
  | looseFire ht =>
    simp only [Sender.work, reduceCtorEq, if_false]
    omega
  | eof hr | readError hr | finDrain hr hq | finAcked hr ha | finTimeout hr =>
    simp only [Sender.work, hr, Reader.work, Closer.work, reduceCtorEq, if_false]
    omega
  | closeSend hc | closeMark hc | closeBoth hc | closeLoop hc | closeAnswered hc hr
  | closeQuit hc hd =>
    simp only [Sender.work, hc, Closer.work, reduceCtorEq, if_true, if_false]
    omega

end Sender

/-! ## The receiving half -/

/-- Only a writer in its block looks at the number of slots. -/
theorem Writer.work_of_idle {w : Writer} (h : w.busy = false) (k k' : Nat) :
    w.work k = w.work k' := by
  cases w with
  | write i => cases h
  | _ => rfl

namespace Receiver

variable {cfg : Config} {r : Receiver} {closeRecv : Bool}

theorem current_insert {g : UInt16} {b b' : RxBlock} (hb : r.rxBlocks.lookup g = some b)
    (hk : b'.k = b.k) :
    (Receiver.current { r with rxBlocks := r.rxBlocks.insert g b' }).map RxBlock.k =
      r.current.map RxBlock.k := by
  simp only [current, lookup_insert_eq]
  split
  · rename_i heq
    rw [heq, hb, Option.map_some, Option.map_some, hk]
  · rfl

theorem work_insert {g : UInt16} {b b' : RxBlock} (hb : r.rxBlocks.lookup g = some b)
    (hk : b'.k = b.k) :
    work { r with rxBlocks := r.rxBlocks.insert g b' } + b.timerWork = r.work + b'.timerWork := by
  have hw := weight_insert RxBlock.timerWork r.rxBlocks g b'
  rw [hb, Option.map_some, Option.getD_some] at hw
  simp only [work, current_insert hb hk]
  omega

theorem handleLQRTimeout_work (cfg : Config) (r : Receiver) (g : UInt16) :
    (handleLQRTimeout cfg r g).state.work ≤ r.work + 1 ∧
    (handleLQRTimeout cfg r g).state.writer = r.writer := by
  unfold handleLQRTimeout
  split
  · exact ⟨Nat.le_succ _, rfl⟩
  · rename_i b hb
    split
    · exact ⟨Nat.le_succ _, rfl⟩
    · refine ⟨?_, rfl⟩
      have hw :=
        work_insert (r := r) hb (show RxBlock.k { b with lqrReported := true } = b.k from rfl)
      have htimer : RxBlock.timerWork { b with lqrReported := true } = b.timerWork := rfl
      simp only [work, List.length_append, List.length_singleton] at hw ⊢
      simp only [current] at hw ⊢
      omega

theorem advance_work (hw : r.writer = .cleanup ∨ r.writer = .finish) :
    r.advance.work + 1 ≤ r.work := by
  have herase := weight_erase RxBlock.timerWork r.rxBlocks r.nextWriteGrp
  rcases hw with hw | hw
  · simp only [work, advance, hw, Writer.work]
    omega
  · simp only [work, advance, hw, Writer.work]
    omega

theorem erase_length {g : UInt16} {l : List UInt16} (h : g ∈ l) :
    (l.erase g).length + 1 = l.length := by
  rw [List.length_erase_of_mem h]
  have := List.length_pos_of_mem h
  omega

/-- **Step lemma for the receiving half** after a cancellation. -/
theorem step_work {e : RxEvent} {eff : Effect Receiver}
    (h : r.step cfg true closeRecv e = some eff) :
    eff.state.work + 1 ≤ r.work := by
  cases e with
  | lqrFire g =>
    simp only [step] at h
    split at h
    · rename_i b hb
      simp only [Option.ite_none_right_eq_some, Option.some.injEq] at h
      obtain ⟨harmed, rfl⟩ := h
      have hw :=
        work_insert (r := r) hb (show RxBlock.k { b with lqrTimer := .fired } = b.k from rfl)
      simp only [RxBlock.timerWork, harmed, reduceCtorEq, if_true, if_false] at hw
      simp only [work, List.length_append, List.length_singleton] at hw ⊢
      simp only [current] at hw ⊢
      omega
    · cases h
  | lqrRun g =>
    simp only [step, Option.ite_none_right_eq_some, Option.some.injEq] at h
    obtain ⟨hmem, rfl⟩ := h
    have hlow := (handleLQRTimeout_work cfg { r with lqrCallbacks := r.lqrCallbacks.erase g } g).1
    have hlen := erase_length hmem
    have herased : work { r with lqrCallbacks := r.lqrCallbacks.erase g } + 2 = r.work := by
      simp only [work, current]
      omega
    omega
  | nakRun g =>
    simp only [step, Option.ite_none_right_eq_some, Option.some.injEq] at h
    obtain ⟨hmem, rfl⟩ := h
    have hlen := erase_length hmem
    change work { r with nakChecks := r.nakChecks.erase g } + 1 ≤ r.work
    simp only [work, current]
    omega
  | wait =>
    simp only [step, Option.ite_none_right_eq_some, Option.some.injEq] at h
    obtain ⟨hw, rfl⟩ := h
    simp only [waitStep, if_true, work, hw, Writer.work, current]
    omega
  | slot =>
    simp only [step] at h
    split at h
    · rename_i i b hw hb
      split at h
      · rename_i hi
        simp only [Option.ite_none_left_eq_some, Option.some.injEq] at h
        obtain ⟨-, rfl⟩ := h
        have hcur : r.rxBlocks.lookup r.nextWriteGrp = some b := hb
        simp only [work, current, hw, hcur, Option.map_some, Option.getD_some, Writer.work]
        omega
      · cases h
        simp only [work, hw, Writer.work]
        omega
    · cases h
  | slotError n =>
    simp only [step] at h
    split at h
    · rename_i i b hw hb
      simp only [Option.ite_none_right_eq_some, Option.some.injEq] at h
      obtain ⟨-, rfl⟩ := h
      simp only [work, hw, Writer.work]
      omega
    · cases h
  | cleanup =>
    simp only [step] at h
    split at h
    · rename_i b hw hb
      have htimer : RxBlock.timerWork
          { b with lqrTimer := if b.lqrTimer = LqrTimer.armed then .stopped else b.lqrTimer } ≤
          b.timerWork := by
        unfold RxBlock.timerWork
        by_cases harmed : b.lqrTimer = .armed
        · simp [harmed]
        · simp [harmed]
      have hk : RxBlock.k { b with lqrTimer := if b.lqrTimer = LqrTimer.armed then .stopped
        else b.lqrTimer } = b.k := rfl
      generalize ({ b with lqrTimer := if b.lqrTimer = LqrTimer.armed then .stopped
        else b.lqrTimer } : RxBlock) = b'
        at h htimer hk
      have hins := work_insert (r := r) hb hk
      split at h
      · cases h
        have hadv :=
          advance_work (r := { r with rxBlocks := r.rxBlocks.insert r.nextWriteGrp b' }) (Or.inl hw)
        exact Nat.le_trans hadv (by omega)
      · cases h
        simp only [work, hw, Writer.work] at hins ⊢
        omega
    · cases h
  | report =>
    simp only [step, Option.ite_none_right_eq_some, Option.some.injEq] at h
    obtain ⟨hw, rfl⟩ := h
    obtain ⟨hlow, hwriter⟩ := handleLQRTimeout_work cfg r r.nextWriteGrp
    simp only [work, hwriter, hw, Writer.work] at hlow
    simp only [work, hw, Writer.work]
    omega
  | finish =>
    simp only [step, Option.ite_none_right_eq_some, Option.some.injEq] at h
    obtain ⟨hw, rfl⟩ := h
    exact advance_work (Or.inr hw)
  | leave =>
    simp only [step] at h
    split at h
    · rename_i why hw
      cases h
      simp only [work, hw, Writer.work]
      omega
    · cases h

end Receiver

/-! ## The session -/

/-- The steps of a session that are neither a packet nor a call of `Close` from outside. -/
def SessionEvent.isInner : SessionEvent → Bool
  | .recv _ | .cancel => false
  | _ => true

namespace Session

variable {rs : ReedSolomon} {cfg : Config} {s s' : Session} {e : SessionEvent} {out : List Bytes}

theorem close_work (s : Session) : s.close.work ≤ s.work := by
  have htx : s.close.tx.work ≤ s.tx.work := by
    simp only [close, Sender.work]
    by_cases h : s.tx.blockTimer = .armed
    · simp only [h, if_true, reduceCtorEq, if_false]
      omega
    · simp only [h, if_false]
      omega
  exact Nat.add_le_add_right
    (Nat.add_le_add_right (Nat.add_le_add_right (Nat.add_le_add_right htx _) _) _) _

/-- The block that `Start` makes finds the writer outside of any block. -/
theorem startInit_work (cfg : Config) (h : Watching s.cancelled s.rx) :
    (Receiver.startInit cfg s.rx).work ≤ s.rx.work + 3 := by
  unfold Receiver.startInit
  split
  · rename_i hempty
    have hnone := lookup_of_isEmpty hempty 0
    have hidle : s.rx.writer.busy = false := by
      rw [Bool.eq_false_iff]
      intro hbusy
      obtain ⟨b, hb, -⟩ := h.block hbusy
      rw [Receiver.current, lookup_of_isEmpty hempty] at hb
      cases hb
    have hinsert := weight_insert RxBlock.timerWork s.rx.rxBlocks 0 (startRxBlock cfg)
    rw [hnone, Option.map_none, Option.getD_none] at hinsert
    have htimer : (startRxBlock cfg).timerWork = 3 := rfl
    simp only [Receiver.work, Writer.work_of_idle hidle _ ((s.rx.current.map RxBlock.k).getD 0)]
    omega
  · omega

/-- **Step lemma.** Every step of a cancelled session lowers its work. -/
theorem work_step (hc : s.cancelled = true) (hwatch : Watching s.cancelled s.rx)
    (hin : e.isInner = true) (hs : s.step rs cfg e = some (s', out)) :
    s'.work + (if e = .tx .closeTick then 0 else 1) ≤ s.work := by
  cases stepped_of_step hs with
  | launch hl =>
    simp only [work, Sender.work, Receiver.work, hl, reduceCtorEq, if_true, if_false,
      Bool.false_eq_true,
      show Reader.check.work = 1 from rfl, show ∀ k, Writer.wait.work k = 2 from fun _ => rfl]
    omega
  | start hl hst =>
    have hstart := startInit_work cfg hwatch
    simp only [work, hst, reduceCtorEq, if_true, if_false, Bool.false_eq_true]
    omega
  | tx e eff hl hclose heff =>
    rw [hc] at heff
    have hlow := heff.work
    simp only [work, SessionEvent.tx.injEq]
    omega
  | txClose e eff hl hclose heff =>
    rw [hc] at heff
    have hlow := heff.work
    have hcl := close_work { s with tx := eff.state }
    simp only [SessionEvent.tx.injEq]
    simp only [work] at hcl ⊢
    omega
  | rx e eff heff =>
    rw [hc] at heff
    have hlow := Receiver.step_work heff
    simp only [work, reduceCtorEq, if_false]
    omega
  | recv p hd => cases hin
  | cancel => cases hin
  | finishHandler hd =>
    simp only [reduceCtorEq, if_false]
    unfold finishHandler
    split
    · rename_i hidle
      exact absurd hidle hd
    · simp only [work, hd, Sender.work, if_true, if_false]
      omega
    · have hlow : work { s with demux := .idle } + 1 ≤ s.work := by
        simp only [work, hd, if_true, if_false]
        omega
      split
      · exact Nat.le_trans (Nat.add_le_add_right (close_work _) 1) hlow
      · exact hlow

/-! ### Launched goroutines -/

theorem handle_reader (cfg : Config) (p : Packet) :
    (s.handle rs cfg p).tx.reader = s.tx.reader := by
  unfold handle
  split
  · rfl
  · split <;> rfl
  · obtain ⟨m, ok, blocks, size, interval, heq, -⟩ := Sender.handleLQR_eq cfg s.tx p
    rw [heq]
  · rfl
  · rfl
  · rfl

theorem finishHandler_reader : s.finishHandler.tx.reader = s.tx.reader := by
  unfold finishHandler
  split
  · rfl
  · rfl
  · simp only
    split <;> rfl

/-- A session that has been launched has a reader and a writer. -/
structure Staffed (s : Session) : Prop where
  reader : s.launched = true → s.tx.reader ≠ .idle
  writer : s.launched = true → s.rx.writer ≠ .idle

theorem staffed_new (cfg : Config) : (newSession cfg).Staffed :=
  ⟨by simp [newSession], by simp [newSession]⟩

theorem Staffed.tx (h : s.Staffed) {e : TxEvent} {eff : Effect Sender} (hl : s.launched = true)
    (heff : Sender.Stepped rs cfg s.cancelled s.tx e eff) : eff.state.reader ≠ .idle := by
  have hreader := h.reader hl
  cases heff with
  | timerRun hc =>
    rw [Sender.flush_reader]
    exact hreader
  | check | read | eof | readError | finFlush | finDrain | finAcked | finTimeout | readerQuit =>
    simp
  | _ => exact hreader

theorem Staffed.rx (h : s.Staffed) {r : Receiver} (hchange : RxChange rs cfg s e r)
    (hl : s.launched = true) :
    r.writer ≠ .idle := by
  have hwriter := h.writer hl
  cases hchange with
  | same => exact hwriter
  | launch hl' => simp
  | start =>
    unfold Receiver.startInit
    split
    · exact hwriter
    · exact hwriter
  | data p ht =>
    rw [(s.rx.handleDataPacket_intake rs cfg p).writer]
    exact hwriter
  | step ev eff heff =>
    have hm := Receiver.step_move heff
    generalize eff.state = r' at hm
    cases hm with
    | timers | stay => exact hwriter
    | advance => simp [Receiver.advance]
    | _ => simp

theorem Staffed.step (h : s.Staffed) (hs : s.step rs cfg e = some (s', out)) : s'.Staffed := by
  have hchange := (step_rxChange hs).1
  cases stepped_of_step hs with
  | launch hl => exact ⟨by simp, by simp⟩
  | start hl hst => exact ⟨h.reader, h.rx hchange⟩
  | tx e eff hl hclose heff => exact ⟨fun _ => h.tx hl heff, h.writer⟩
  | txClose e eff hl hclose heff => exact ⟨fun _ => h.tx hl heff, h.writer⟩
  | rx e eff heff => exact ⟨h.reader, h.rx hchange⟩
  | recv p hd =>
    constructor
    · rw [handle_launched, handle_reader]
      exact h.reader
    · rw [handle_launched]
      exact h.rx hchange
  | finishHandler hd =>
    constructor
    · rw [finishHandler_launched, finishHandler_reader]
      exact h.reader
    · rw [finishHandler_launched]
      exact h.rx hchange
  | cancel => exact ⟨h.reader, h.writer⟩

/-! ### The end -/

/-- Nothing is left that could run: the goroutines have returned, and no timer or callback is
outstanding. -/
structure Ended (s : Session) : Prop where
  reader : s.tx.reader = .returned
  closer : s.tx.closer = .idle ∨ s.tx.closer = .returned
  shaper : s.tx.run = .returned
  writer : ∃ why, s.rx.writer = .returned why
  blockTimers : s.tx.blockTimer ≠ .armed ∧ s.tx.looseTimers = 0 ∧ s.tx.callbacks = 0
  lqrTimers : ∀ g b, s.rx.rxBlocks.lookup g = some b → b.lqrTimer ≠ .armed
  lqrCallbacks : s.rx.lqrCallbacks = []
  nakChecks : s.rx.nakChecks = []
  handler : s.demux = .idle

/-- A cancelled session with its invariants. -/
structure Leaving (s : Session) : Prop extends Staffed s where
  cancelled : s.cancelled = true
  watching : Watching s.cancelled s.rx

/-- No step is possible, a CLOSE that is sent again apart. -/
def Stuck (rs : ReedSolomon) (cfg : Config) (s : Session) : Prop :=
  ∀ e : SessionEvent, e.isInner = true → e ≠ .tx .closeTick → s.step rs cfg e = none

theorem Stuck.launched (hstuck : s.Stuck rs cfg) : s.launched = true := by
  by_contra hl
  have := hstuck .launch rfl (by simp)
  simp [Session.step, hl] at this

section Stuck

variable (h : s.Leaving) (hstuck : s.Stuck rs cfg)

include h hstuck

theorem Stuck.tx {e : TxEvent} (he : e ≠ .closeTick) : s.tx.step rs cfg true e = none := by
  have := hstuck (.tx e) rfl (by simpa using he)
  simpa [Session.step, hstuck.launched, h.cancelled] using this

theorem Stuck.rx (e : RxEvent) : s.rx.step cfg true s.tx.closeRecv e = none := by
  have := hstuck (.rx e) rfl (by simp)
  simpa [Session.step, h.cancelled] using this

theorem Stuck.reader : s.tx.reader = .returned := by
  have hquit := hstuck.tx h (e := .readerQuit) (by simp)
  have heof := hstuck.tx h (e := .eof) (by simp)
  have hidle := h.reader (hstuck.launched)
  cases hr : s.tx.reader <;> simp_all [Sender.step, Reader.quits]

theorem Stuck.closer : s.tx.closer = .idle ∨ s.tx.closer = .returned := by
  have hsend := hstuck.tx h (e := .closeSend) (by simp)
  have hmark := hstuck.tx h (e := .closeMark) (by simp)
  have hfinish := hstuck.tx h (e := .closeFinish) (by simp)
  have hquit := hstuck.tx h (e := .closeQuit) (by simp)
  cases hc : s.tx.closer with
  | idle => exact Or.inl rfl
  | returned => exact Or.inr rfl
  | first => simp [Sender.step, hc] at hsend
  | mark => simp [Sender.step, hc] at hmark
  | finish both => cases both <;> simp [Sender.step, hc] at hfinish
  | loop => simp [Sender.step, hc] at hquit

theorem Stuck.shaper : s.tx.run = .returned := by
  by_contra hne
  obtain ⟨e, shaper, run, out, hrun⟩ :=
    s.tx.shaper.runStep_enabled true hne (fun _ => Or.inr (Or.inl rfl))
  have hnone := hstuck.tx h (e := .shaper e) (by simp)
  simp [Sender.step, hrun] at hnone

theorem Stuck.writer : ∃ why, s.rx.writer = .returned why := by
  have hidle := h.writer (hstuck.launched)
  have hblock := h.watching.block
  cases hw : s.rx.writer with
  | idle => exact absurd hw hidle
  | returned why => exact ⟨why, rfl⟩
  | wait =>
    have := hstuck.rx h .wait
    simp [Receiver.step, hw] at this
  | write i =>
    obtain ⟨b, hb, -⟩ := hblock (by rw [hw]; rfl)
    have hslot := hstuck.rx h .slot
    have herror := hstuck.rx h (.slotError 0)
    simp only [Receiver.step, hw, hb] at hslot herror
    by_cases hi : i < b.k
    · by_cases hdata : extract (b.slot i) = []
      · simp [hi, hdata] at hslot
      · -- the connection is closed: the write fails
        simp [hi, List.length_pos_iff.mpr hdata] at herror
    · simp [hi] at hslot
  | cleanup =>
    obtain ⟨b, hb, -⟩ := hblock (by rw [hw]; rfl)
    have := hstuck.rx h .cleanup
    simp only [Receiver.step, hw, hb] at this
    split at this <;> cases this
  | report =>
    have := hstuck.rx h .report
    simp [Receiver.step, hw] at this
  | finish =>
    have := hstuck.rx h .finish
    simp [Receiver.step, hw] at this
  | leave why =>
    have := hstuck.rx h .leave
    simp [Receiver.step, hw] at this

theorem Stuck.blockTimers : s.tx.blockTimer ≠ .armed ∧ s.tx.looseTimers = 0 ∧
    s.tx.callbacks = 0 := by
  have hfire := hstuck.tx h (e := .timerFire) (by simp)
  have hloose := hstuck.tx h (e := .looseFire) (by simp)
  have hrun := hstuck.tx h (e := .timerRun) (by simp)
  simp only [Sender.step, ite_eq_right_iff, reduceCtorEq, imp_false] at hfire hloose hrun
  exact ⟨hfire, by omega, by omega⟩

/-- A session in which nothing can run has ended. -/
theorem Stuck.ended : s.Ended where
  reader := hstuck.reader h
  closer := hstuck.closer h
  shaper := hstuck.shaper h
  writer := hstuck.writer h
  blockTimers := hstuck.blockTimers h
  lqrTimers g b hb harmed := by
    have := hstuck.rx h (.lqrFire g)
    simp [Receiver.step, hb, harmed] at this
  lqrCallbacks := by
    refine List.eq_nil_iff_forall_not_mem.mpr fun g hg => ?_
    have := hstuck.rx h (.lqrRun g)
    simp [Receiver.step, hg] at this
  nakChecks := by
    refine List.eq_nil_iff_forall_not_mem.mpr fun g hg => ?_
    have := hstuck.rx h (.nakRun g)
    simp [Receiver.step, hg] at this
  handler := by
    by_contra hd
    have := hstuck .finishHandler rfl (by simp)
    simp [Session.step, hd] at this

end Stuck

theorem Leaving.step (h : s.Leaving) (hs : s.step rs cfg e = some (s', out)) : s'.Leaving where
  toStaffed := h.toStaffed.step hs
  cancelled := (step_rxChange hs).2.2 h.cancelled
  watching := h.watching.session hs

end Session

/-- The steps after a cancellation: no packet comes any more. -/
def Inner (_ : Session) (e : SessionEvent) : Prop := e.isInner = true

instance (s : Session) (e : SessionEvent) : Decidable (Inner s e) :=
  inferInstanceAs (Decidable (e.isInner = true))

/-- `Session.work` ranks the steps after a cancellation. -/
def teardownRanking (rs : ReedSolomon) (cfg : Config) :
    Ranking (session rs cfg) Inner (fun e => decide (e = .tx .closeTick)) where
  inv := Session.Leaving
  rank := Session.work
  keep := by
    intro s e s' h _ hs
    obtain ⟨⟨_, out⟩, hstep, rfl⟩ := Option.map_eq_some_iff.mp hs
    exact h.step hstep
  lower := by
    intro s e s' h hin hs
    obtain ⟨⟨_, out⟩, hstep, rfl⟩ := Option.map_eq_some_iff.mp hs
    simpa using Session.work_step h.cancelled h.watching hin hstep

/-- **A cancelled session comes to its end.** After any run, however `Close` was reached: what the
session's goroutines and timers can still do is bounded by `Session.work`, CLOSEs that are repeated
while the context is already done apart; they can always get to the end; and when none of them can
go on, all of them have returned and no timer is left. -/
theorem teardown_terminates {rs : ReedSolomon} {cfg : Config} {ok : Session → SessionEvent → Prop}
    {s : Session} (hr : Reach (session rs cfg) ok s) (hc : s.cancelled = true) :
    (∀ es s', (session rs cfg).runOk Inner s es = some s' →
      (es.countP (· ≠ .tx .closeTick)) + s'.work ≤ s.work) ∧
    (∃ es s', es.length ≤ s.work ∧ (session rs cfg).runOk Inner s es = some s' ∧ s'.Ended) ∧
    ∀ es s', (session rs cfg).runOk Inner s es = some s' → s'.Stuck rs cfg → s'.Ended := by
  have hleave : s.Leaving := by
    obtain ⟨hstaffed, hwatch⟩ : s.Staffed ∧ Watching s.cancelled s.rx := by
      refine session_run (I := fun s => s.Staffed ∧ Watching s.cancelled s.rx) ?_ ?_ hr
      · exact ⟨Session.staffed_new cfg, watching_new⟩
      · rintro s e s' out ⟨hstaffed, hwatch⟩ - hs
        exact ⟨hstaffed.step hs, hwatch.session hs⟩
    exact ⟨hstaffed, hc, hwatch⟩
  refine ⟨?_, ?_, ?_⟩
  · intro es s' hrun
    simpa [teardownRanking] using ((teardownRanking rs cfg).bound hleave hrun).2
  · refine (teardownRanking rs cfg).ends ?_ hleave
    intro s h hgoal
    -- a state with no step left would have ended
    by_contra hno
    have hstuck : s.Stuck rs cfg := by
      intro e hin hne
      by_contra hstep
      obtain ⟨⟨s', out⟩, hs⟩ := Option.ne_none_iff_exists'.mp hstep
      exact hno ⟨e, s', hin, by simpa using hne, by simp [session, hs]⟩
    exact hgoal (hstuck.ended h)
  · intro es s' hrun hstuck
    exact hstuck.ended ((teardownRanking rs cfg).bound hleave hrun).1

/-- A session is closed with a shard pending, half a block received and an LQR callback waiting. -/
theorem teardown_terminates_small :
    ∃ s, Reach (session reedSolomonTwoOne smallConfig) (fun _ _ => True) s ∧
      s.tx.pendingData.length = 1 ∧ s.rx.lqrCallbacks = [0] ∧ s.work = 6 ∧
      ∃ es s', (session reedSolomonTwoOne smallConfig).runOk Inner s es = some s' ∧ s'.Ended := by
  obtain ⟨s, hr, hc, hp, hl, hw⟩ : ∃ s,
      Reach (session reedSolomonTwoOne smallConfig) (fun _ _ => True) s ∧ s.cancelled = true ∧
      s.tx.pendingData.length = 1 ∧ s.rx.lqrCallbacks = [0] ∧ s.work = 6 :=
    Reach.exists_of_runOk _ [.launch, .start, .tx .check, .tx (.read [7]),
      .recv ({ type := .data, streamID := 1, groupID := 0, idx := 0, payload := [0, 1, 7] }),
      .rx (.lqrFire 0), .cancel] (by decide +kernel)
  obtain ⟨es, s', -, hrun, hend⟩ := (teardown_terminates hr hc).2.1
  exact ⟨s, hr, hp, hl, hw, es, s', hrun, hend⟩

end TcpPep
