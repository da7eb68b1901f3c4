import TcpPep.Lib.Watch
import TcpPep.Proxy.CatchUp
import TcpPep.Proxy.Fragmentation

/-!
Back-pressure.

`readTCPRun` reads from its connection only after it has seen at most ten datagrams in the shaper's
queue. The test and the read are not one section: a block timer may flush in between, `HandleNak`
enqueues without any test, and the read itself may complete a block. `Sender.slack` is what the
flushes can still add.

* `Session.countResent`: the retransmissions that were queued since the last test;
* `Sender.Stepped.backlog`, `Session.step_backlog`: what a step does to the bound;
* `drains`: the shaper's loop alone empties the queue of a session that is not cancelled;
* `backpressure`: the bound over every run, and that a reader that waits is not stuck.
-/

namespace TcpPep

open Protocol Fec FiniteMap Events

/-! ## What a step adds to the queue -/

theorem Shaper.length_enqueueMany_le (s : Shaper) (packets : List Bytes) :
    (s.enqueueMany packets).queue.length ≤ s.queue.length + packets.length := by
  unfold enqueueMany
  split
  · exact Nat.le_add_right ..
  · exact Nat.le_of_eq List.length_append

theorem Shaper.Ran.length_queue_le {done : Bool} {s s' : Shaper} {r r' : RunState} {e : RunEvent}
    {out : List Bytes} (h : s.Ran done r e s' r' out) : s'.queue.length ≤ s.queue.length := by
  cases h with
  | takeAll size interval hi => exact Nat.zero_le _
  | takeBurst size interval hi hq hb =>
    rw [List.length_drop]
    exact Nat.sub_le ..
  | _ => exact Nat.le_refl _

theorem length_sendPacketDirect_le (p : Packet) : (sendPacketDirect p).length ≤ 1 := by
  unfold sendPacketDirect
  split <;> simp

theorem length_flatMap_sendPacketDirect_le (ps : List Packet) :
    (ps.flatMap sendPacketDirect).length ≤ ps.length := by
  induction ps with
  | nil => exact Nat.le_refl _
  | cons p ps ih =>
    have hone := length_sendPacketDirect_le p
    rw [List.flatMap_cons, List.length_append, List.length_cons]
    omega

namespace Sender

variable {rs : ReedSolomon} {cfg : Config} {s : Sender}

/-- A flush makes `K` data packets and `curM` parity packets. -/
theorem length_nextDatagrams_le : (s.nextDatagrams rs cfg).length ≤ cfg.fecK + s.curM := by
  refine Nat.le_trans (length_flatMap_sendPacketDirect_le _) ?_
  unfold Block.packetsAt
  split
  · exact Nat.zero_le _
  · simp [dataPackets, parityPackets, nextBlock]

/-- What may come on top of the ten datagrams of the test before the next one: a block of the
reader's own, unless it still has to read, and one of a block timer, unless that is still pending.
-/
def slack (cfg : Config) (s : Sender) : Nat :=
  (if s.reader = .read then 0 else cfg.fecK + cfg.fecM) + if s.pendingData = [] then
    cfg.fecK + cfg.fecM else 0

theorem slack_le : s.slack cfg ≤ 2 * (cfg.fecK + cfg.fecM) := by
  unfold slack
  split <;> split <;> omega

/-- The slack depends on where the reader stands and on what is pending. -/
theorem slack_mono {s' : Sender} (hpend : s'.pendingData = s.pendingData)
    (hread : s'.reader = .read → s.reader = .read) : s.slack cfg ≤ s'.slack cfg := by
  unfold slack
  rw [hpend]
  refine Nat.add_le_add_right ?_ _
  by_cases h : s'.reader = .read
  · rw [if_pos h, if_pos (hread h)]
  · rw [if_neg h]
    split <;> omega

/-- A flush uses up the slack that it takes away. -/
theorem flush_backlog (hm : s.curM ≤ cfg.fecM) {n : Nat}
    (h : s.shaper.queue.length ≤ 10 + s.slack cfg + n) :
    (s.flushPendingBlockLocked rs cfg).shaper.queue.length ≤
      10 + (s.flushPendingBlockLocked rs cfg).slack cfg + n := by
  have hlen :=
    s.shaper.length_enqueueMany_le (if s.pendingData = [] then [] else s.nextDatagrams rs cfg)
  have hnext := @length_nextDatagrams_le rs cfg s
  rw [flush_queue_pending]
  unfold slack at *
  rw [flush_pendingData, flush_reader]
  by_cases hne : s.pendingData = []
  · simp only [hne, if_true, List.length_nil] at *
    omega
  · simp only [hne, if_true, if_false] at *
    omega

/-- **Step lemma of the sending half.** Every step but the test itself keeps the bound. -/
theorem Stepped.backlog {done : Bool} {e : TxEvent} {eff : Effect Sender}
    (hs : Stepped rs cfg done s e eff) (hm : s.curM ≤ cfg.fecM) (he : e ≠ .check) {n : Nat}
    (h : s.shaper.queue.length ≤ 10 + s.slack cfg + n) :
    eff.state.shaper.queue.length ≤ 10 + eff.state.slack cfg + n := by
  cases hs with
  | check => exact absurd rfl he
  | read data hr hne hle =>
    obtain ⟨timer, loose, heq⟩ := readTCP_eq rs cfg s data
    -- before the read at most the timer's block came on top; now the slack has room for the
    -- reader's own block too
    have hbefore : s.shaper.queue.length ≤ 10 + (cfg.fecK + cfg.fecM) + n := by
      refine Nat.le_trans h ?_
      unfold slack
      rw [if_pos hr]
      split <;> omega
    simp only [heq]
    split
    · refine Nat.le_trans hbefore ?_
      simp [slack, append]
    · have hlen := (s.append data .unset loose).shaper.length_enqueueMany_le
        ((s.append data .unset loose).nextDatagrams rs cfg)
      have hnext := @length_nextDatagrams_le rs cfg (s.append data .unset loose)
      simp only [slack, flush_pendingData,
        flush_queue (show (s.append data .unset loose).pendingData ≠ [] by simp [append])]
      simp only [append] at *
      simp only [reduceCtorEq, if_false, if_true]
      omega
  | finFlush hr hd =>
    refine Nat.le_trans (flush_backlog hm h) ?_
    refine Nat.add_le_add_right (Nat.add_le_add_left ?_ _) _
    exact slack_mono rfl (by simp)
  | timerRun hc => exact flush_backlog (s := { s with callbacks := s.callbacks - 1 }) hm h
  | shaper r shaper run out hrun =>
    have hlen := (Shaper.ran_of_runStep hrun).length_queue_le
    exact Nat.le_trans hlen h
  | _ =>
    refine Nat.le_trans h (Nat.add_le_add_right (Nat.add_le_add_left ?_ _) _)
    refine slack_mono rfl ?_
    simp

end Sender

namespace Session

/-- The retransmissions that `HandleNak` has queued since `readTCPRun` last passed its test. -/
def countResent (rs : ReedSolomon) (cfg : Config) (s : Session) : SessionEvent → Nat → Nat
  | .tx .check, _ => 0
  | .finishHandler, resent => resent + (s.handed rs cfg .finishHandler).length
  | _, resent => resent

variable {rs : ReedSolomon} {cfg : Config} {s s' : Session} {e : SessionEvent} {out : List Bytes}

theorem countResent_of_ne (hcheck : e ≠ .tx .check) (hfinish : e ≠ .finishHandler) (resent : Nat) :
    s.countResent rs cfg e resent = resent := by
  unfold countResent
  split
  · exact absurd rfl hcheck
  · exact absurd rfl hfinish
  · rfl

theorem handle_slack (p : Packet) : (s.handle rs cfg p).tx.slack cfg = s.tx.slack cfg := by
  unfold handle
  split
  · rfl
  · split <;> rfl
  · obtain ⟨m, ok, blocks, size, interval, heq, -⟩ := Sender.handleLQR_eq cfg s.tx p
    rw [heq]
    rfl
  · rfl
  · rfl
  · rfl

theorem finishHandler_slack : s.finishHandler.tx.slack cfg = s.tx.slack cfg := by
  unfold finishHandler
  split
  · rfl
  · rfl
  · simp only
    split <;> rfl

theorem step_backlog (hs : s.step rs cfg e = some (s', out)) (hm : s.tx.curM ≤ cfg.fecM)
    {resent : Nat} (h : s.tx.shaper.queue.length ≤ 10 + s.tx.slack cfg + resent) :
    s'.tx.shaper.queue.length ≤ 10 + s'.tx.slack cfg + s.countResent rs cfg e resent := by
  have htx : ∀ {ev : TxEvent} {eff : Effect Sender}, Sender.Stepped rs cfg s.cancelled s.tx ev eff →
      eff.state.shaper.queue.length ≤ 10 + eff.state.slack cfg + s.countResent rs cfg
      (.tx ev) resent := by
    intro ev eff heff
    by_cases hcheck : ev = .check
    · subst hcheck
      cases heff with
      | check hr hd hq => exact Nat.le_trans hq (by omega)
    · rw [countResent_of_ne (by simpa using hcheck) (by simp)]
      exact heff.backlog hm hcheck h
  cases stepped_of_step hs with
  | launch hl =>
    refine Nat.le_trans h (Nat.add_le_add_right (Nat.add_le_add_left ?_ _) _)
    exact Sender.slack_mono rfl (by simp)
  | tx ev eff hl hclose heff => exact htx heff
  | txClose ev eff hl hclose heff => exact htx heff
  | recv p hd =>
    rw [handle_queue, handle_slack]
    exact h
  | finishHandler hd =>
    have hlen := s.tx.shaper.length_enqueueMany_le (s.handed rs cfg .finishHandler)
    rw [@finishHandler_queue rs cfg s, finishHandler_slack]
    simp only [countResent]
    omega
  | _ => exact h

end Session

/-! ## The way out of the wait -/

/-- Only the shaper's loop takes steps. -/
def OnlyShaper (_ : Session) (e : SessionEvent) : Prop := ∃ r, e = .tx (.shaper r)

/-- A session at work, as every run of it keeps it. -/
structure Session.Fit (cfg : Config) (s : Session) : Prop where
  live : s.Live
  tuned : s.tx.controls.Tuned cfg
  attended : s.Attended

section Drain

variable {rs : ReedSolomon} {cfg : Config}

theorem Session.Fit.step (hk : 1 ≤ cfg.fecK) {s s' : Session} {e : SessionEvent} {out : List Bytes}
    (h : s.Fit cfg) (hs : s.step rs cfg e = some (s', out)) : s'.Fit cfg := by
  have hsize : 1 ≤ s.tx.shaper.burstSize := by
    have hsize : s.tx.shaper.burstSize = cfg.fecK + s.tx.curM := h.tuned.size
    omega
  exact ⟨h.live.step hs, (Session.step_control hs).tuned h.tuned, h.attended.step h.live hsize hs⟩

theorem fit_of_reach (hk : 1 ≤ cfg.fecK) {ok : Session → SessionEvent → Prop} {s : Session}
    (hr : Reach (session rs cfg) ok s) : s.Fit cfg :=
  session_run (I := Session.Fit cfg) ⟨Session.live_new cfg, Sender.tuned_new cfg,
    Session.attended_new cfg⟩
    (fun _ _ _ _ h _ hs => h.step hk hs) hr

/-- Where the reader waits for the queue to shrink. -/
structure Session.ReaderWaits (s : Session) : Prop where
  launched : s.launched = true
  up : s.cancelled = false
  reader : s.tx.reader = .check

/-- **Progress of the shaper.** By induction on the work that is left to it. -/
theorem drains (hk : 1 ≤ cfg.fecK) :
    Attains (session rs cfg) OnlyShaper (Session.Fit cfg)
      (fun s => s.ReaderWaits ∧ s.tx.shaper.queue ≠ [])
      (fun s => s.ReaderWaits ∧ s.tx.shaper.queue = []) := by
  have hstable : Stable (session rs cfg) OnlyShaper (Session.Fit cfg) := by
    intro s e s' h _ hs
    obtain ⟨⟨_, out⟩, hs', rfl⟩ := Option.map_eq_some_iff.mp hs
    exact h.step hk hs'
  refine .of_rank_step hstable (fun s => s.tx.sendWork) ?_
  rintro s hfit ⟨hwait, hne⟩
  have hstop := (hfit.live hwait.up).1
  have hwork : s.tx.run.held ++ s.tx.shaper.queue ≠ [] := by simp [hne]
  obtain ⟨r, shaper, run, out, hstep⟩ :=
    s.tx.shaper.runStep_enabled false (hfit.attended.run hwait.up)
    (fun _ => Or.inr (Or.inr hne))
  have hlt := Sender.sendWork_lt hstop hfit.attended.burst hwork hstep
  have hwait' : Session.ReaderWaits { s with tx := { s.tx with shaper, run } } :=
    ⟨hwait.launched, hwait.up, hwait.reader⟩
  refine ⟨.tx (.shaper r), { s with tx := { s.tx with shaper, run } }, ⟨r, rfl⟩, ?_, ?_⟩
  · simp [session, Session.step, hwait.launched, hwait.up, Sender.step, hstep, Session.applyTx]
  · by_cases hempty : shaper.queue = []
    · exact Or.inl ⟨hwait', hempty⟩
    · exact Or.inr ⟨⟨hwait', hempty⟩, hlt⟩

end Drain

/-! ## Over a run -/

/-- The session with the count of its retransmissions. -/
def counted (rs : ReedSolomon) (cfg : Config) : Machine (Session × Nat) SessionEvent :=
  (session rs cfg).watched 0 (Session.countResent rs cfg)

section Run

variable {rs : ReedSolomon} {cfg : Config} {s : Session}

theorem backlog_of_reach {resent : Nat}
    (hr : Reach (counted rs cfg) (fun _ _ => True) (s, resent)) :
    s.tx.shaper.queue.length ≤ 10 + s.tx.slack cfg + resent := by
  have hstep : ∀ (s : Session) (resent : Nat) (e : SessionEvent) (s' : Session),
      Reach (session rs cfg) (fun _ _ => True) s →
      s.tx.shaper.queue.length ≤ 10 + s.tx.slack cfg + resent → True →
      (session rs cfg).step s e = some s' →
      s'.tx.shaper.queue.length ≤ 10 + s'.tx.slack cfg + s.countResent rs cfg e resent := by
    intro s resent e s' hr h _ hs
    obtain ⟨⟨_, out⟩, hs', rfl⟩ := Option.map_eq_some_iff.mp hs
    exact Session.step_backlog hs' (tuned_of_reach hr).bound h
  exact Reach.watched_invariant (Nat.zero_le _) hstep (fun _ _ _ => trivial) hr

/-- A reader that waits can get on. -/
theorem Session.ReaderWaits.passes (hk : 1 ≤ cfg.fecK)
    (hr : Reach (session rs cfg) (fun _ _ => True) s) (hwait : s.ReaderWaits) :
    ∃ s', Reach { session rs cfg with init := s } OnlyShaper s' ∧
      ∃ s'', (session rs cfg).step s' (.tx .check) = some s'' ∧ s''.tx.reader = .read := by
  obtain ⟨s', hr', hwait', hempty⟩ : ∃ s', Reach { session rs cfg with init := s } OnlyShaper s' ∧
      s'.ReaderWaits ∧ s'.tx.shaper.queue = [] := by
    by_cases hne : s.tx.shaper.queue = []
    · exact ⟨s, .init, hwait, hne⟩
    · obtain ⟨s', hr', -, hwait', hempty⟩ := drains hk s (fit_of_reach hk hr) ⟨hwait, hne⟩
      exact ⟨s', hr', hwait', hempty⟩
  refine ⟨s', hr', { s' with tx := { s'.tx with reader := .read } }, ?_, rfl⟩
  simp [session, Session.step, hwait'.launched, hwait'.up, Sender.step, hwait'.reader,
    Shaper.queueLen, hempty, Session.applyTx]

end Run

/-- **Back-pressure.** Whatever is read, flushed, received and retransmitted, in whatever order: the
shaper's queue holds at most ten datagrams, two blocks, and the retransmissions queued since the
reader last passed its test. A reader that waits in a session that is not cancelled can always get
on: steps of the shaper's loop alone lead to a state in which the test passes. -/
theorem backpressure {rs : ReedSolomon} {cfg : Config} (hk : 1 ≤ cfg.fecK) {s : Session}
    (hr : Reach (session rs cfg) (fun _ _ => True) s) :
    (∃ resent, Reach (counted rs cfg) (fun _ _ => True) (s, resent)) ∧
    (∀ resent, Reach (counted rs cfg) (fun _ _ => True) (s, resent) →
      s.tx.shaper.queueLen ≤ 10 + 2 * (cfg.fecK + cfg.fecM) + resent) ∧
    (s.launched = true → s.cancelled = false → s.tx.reader = .check →
      ∃ s', Reach { session rs cfg with init := s } OnlyShaper s' ∧
        ∃ s'', (session rs cfg).step s' (.tx .check) = some s'' ∧ s''.tx.reader = .read) := by
  refine ⟨hr.watched, ?_, ?_⟩
  · intro resent hresent
    have hbound := backlog_of_reach hresent
    have hslack := @Sender.slack_le cfg s.tx
    show s.tx.shaper.queue.length ≤ _
    omega
  · intro hl hc hcheck
    exact Session.ReaderWaits.passes hk hr ⟨hl, hc, hcheck⟩

/-- Eight reads in a row make four blocks of three datagrams: the reader has to wait, and can get
on. -/
theorem backpressure_small :
    ∃ s : Session, 10 < s.tx.shaper.queueLen ∧
      (∃ resent, Reach (counted reedSolomonTwoOne smallConfig) (fun _ _ => True) (s, resent)) ∧
      ∃ s', Reach { session reedSolomonTwoOne smallConfig with init := s } OnlyShaper s' ∧
        ∃ s'', (session reedSolomonTwoOne smallConfig).step s' (.tx .check) = some s'' ∧
        s''.tx.reader = .read := by
  obtain ⟨s, hr, hlong, hl, hc, hcheck⟩ : ∃ s,
      Reach (session reedSolomonTwoOne smallConfig) (fun _ _ => True) s ∧
      10 < s.tx.shaper.queueLen ∧ s.launched = true ∧ s.cancelled = false ∧ s.tx.reader = .check :=
    Reach.exists_of_runOk _ (.launch :: (List.replicate 8 [.tx .check, .tx (.read [7])]).flatten)
      (by decide +kernel)
  obtain ⟨hcounted, -, hgo⟩ := backpressure (by decide) hr
  exact ⟨s, hlong, hcounted, hgo hl hc hcheck⟩

end TcpPep
