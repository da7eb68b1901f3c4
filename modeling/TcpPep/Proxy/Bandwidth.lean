import Mathlib.Algebra.Order.Floor.Semifield
import Mathlib.Data.Rat.Floor
import Mathlib.Tactic.FieldSimp
import Mathlib.Tactic.NormNum
import Mathlib.Tactic.Ring
import TcpPep.Lib.Pacing
import TcpPep.Proxy.Fragmentation
import TcpPep.Proxy.Parity

/-!
The shaper against the configured bandwidth.

`Run` takes a burst of up to `K + curM` packets and sets `nextReset` to the time it takes to send
as many packets of the link MTU, cut down to whole milliseconds. The clock is part of
the state here, and the log says when `Run` took packets.

* `pacing`: the shaper of a session, its `Run` loop and the clock as a machine;
* `pacing_of_session`: a session uses its shaper as this machine does;
* `Priced`: a burst size whose interval pays for it;
* `Paced.Conforms`: the log of the bursts is spaced;
* `bandwidth_conformance_iff`: the bandwidth is kept in every window of every run exactly when
  no interval is cut;
* `bandwidth_exceeded`: two bursts that carry more.
-/

namespace TcpPep

open Protocol Fec Events Pacing

inductive PacedEvent where
  | enqueue (packet : Bytes)
  | enqueueMany (packets : List Bytes)
  /-- `curM` changes and `updateShaperParams` passes it on -/
  | setCurM (m : Nat)
  /-- time passes -/
  | tick (d : ℚ)
  | run (e : RunEvent)
  /-- `nextReset = time.Now().Add(burstInterval)`, after the burst has been taken -/
  | schedule
  deriving DecidableEq

structure Paced where
  shaper : Shaper
  run : RunState := .wait
  /-- the clock, in milliseconds -/
  now : ℚ := 0
  /-- the zero time of Go is not after any clock reading -/
  nextReset : ℚ := 0
  /-- the interval of a burst that has been taken while `nextReset` is not set yet -/
  unscheduled : Option Int := none
  /-- when `Run` has taken packets, and how many -/
  taken : List (ℚ × Nat) := []
  deriving DecidableEq

namespace Paced

/-- Record what `Run` has taken, if anything. -/
def took (s : Paced) (burstInterval : Int) (pkts : List Bytes) : Paced :=
  if pkts = [] then s
  else { s with taken := s.taken ++ [(s.now, pkts.length)]
                unscheduled := if burstInterval ≤ 0 then none else some burstInterval }

theorem took_frame (s : Paced) (burstInterval : Int) (pkts : List Bytes) :
    (s.took burstInterval pkts).shaper = s.shaper ∧ (s.took burstInterval pkts).run = s.run := by
  unfold took
  split <;> exact ⟨rfl, rfl⟩

theorem took_nil (s : Paced) (burstInterval : Int) : s.took burstInterval [] = s := if_pos rfl

def step (cfg : Config) (s : Paced) : PacedEvent → Option Paced
  | .enqueue packet => some { s with shaper := s.shaper.enqueue packet }
  | .enqueueMany packets => some { s with shaper := s.shaper.enqueueMany packets }
  | .setCurM m =>
    if m ≤ cfg.fecM then
      some { s with
        shaper := s.shaper.updateParams (cfg.fecK + m) (burstInterval cfg (cfg.fecK + m)) }
    else none
  | .tick d => if 0 ≤ d then some { s with now := s.now + d } else none
  | .run .poll =>
    (s.shaper.runStep false s.run .poll).map fun r => { s with shaper := r.1, run := r.2.1 }
  | .run .take =>
    match s.run with
    | .ready burstSize burstInterval =>
      -- a paced burst sleeps until `nextReset`
      if burstInterval ≤ 0 ∨ s.nextReset ≤ s.now then
        (s.shaper.runStep false (.ready burstSize burstInterval) .take).map fun r =>
          ({ s with shaper := r.1, run := r.2.1 } : Paced).took burstInterval r.2.1.held
      else none
    | _ => none
  -- as long as the context is not cancelled nothing ends a sleep early
  | .run .interrupt => none
  | .run .send =>
    if s.unscheduled = none then
      (s.shaper.runStep false s.run .send).map fun r => { s with shaper := r.1, run := r.2.1 }
    else none
  | .schedule =>
    match s.unscheduled with
    | some burstInterval => some { s with nextReset := s.now + burstInterval, unscheduled := none }
    | none => none

/-- The packets dequeued from `a` to `b`. -/
def dequeued (s : Paced) (a b : ℚ) : Nat := within a b s.taken

end Paced

/-- The shaper of a session as `NewSession` sets it up. -/
def pacing (cfg : Config) : Machine Paced PacedEvent where
  init := { shaper := (newSender cfg).shaper }
  step := Paced.step cfg

/-! ## What a session does with its shaper -/

theorem Sender.Stepped.run {rs : ReedSolomon} {cfg : Config} {done : Bool} {s : Sender}
    {e : TxEvent} {eff : Effect Sender} (hs : Stepped rs cfg done s e eff)
    (he : ∀ r, e ≠ .shaper r) : eff.state.run = s.run := by
  cases hs with
  | read data hr hne hle =>
    obtain ⟨timer, loose, heq⟩ := readTCP_eq rs cfg s data
    simp only [heq]
    split
    · rfl
    · exact flush_run ..
  | finFlush hr hd => exact flush_run ..
  | timerRun hc => exact flush_run ..
  | shaper r shaper run out hrun => exact absurd rfl (he r)
  | _ => rfl

namespace Session

variable {rs : ReedSolomon} {cfg : Config} {s s' : Session} {e : SessionEvent} {out : List Bytes}

theorem step_run (hs : s.step rs cfg e = some (s', out)) (he : ∀ r, e ≠ .tx (.shaper r)) :
    s'.tx.run = s.tx.run := by
  cases stepped_of_step hs with
  | tx e eff hl hclose heff => exact heff.run fun r h => he r (by rw [h])
  | txClose e eff hl hclose heff => exact heff.run fun r h => he r (by rw [h])
  | recv p hd =>
    unfold handle
    split
    · rfl
    · split <;> rfl
    · obtain ⟨m, ok, blocks, size, interval, heq, -⟩ := Sender.handleLQR_eq cfg s.tx p
      rw [heq]
    · rfl
    · rfl
    · rfl
  | finishHandler hd =>
    unfold finishHandler
    split
    · rfl
    · rfl
    · simp only
      split <;> rfl
  | _ => rfl

end Session

/-- A step of `Run`, after the sleep it may need and with the time of the next burst set. -/
theorem reach_ran {cfg : Config} {t : Paced} (hr : Reach (pacing cfg) (fun _ _ => True) t)
    (hset : t.unscheduled = none) {r : RunEvent} {shaper : Shaper} {run : RunState}
    {out : List Bytes} (hrun : t.shaper.runStep false t.run r = some (shaper, run, out)) :
    ∃ t', Reach (pacing cfg) (fun _ _ => True) t' ∧ t'.shaper = shaper ∧ t'.run = run ∧
    t'.unscheduled = none := by
  have hwoke : Reach (pacing cfg) (fun _ _ => True)
      { t with now := t.now + max 0 (t.nextReset - t.now) } :=
    hr.step (e := .tick (max 0 (t.nextReset - t.now))) trivial (if_pos (le_max_left _ _))
  have hdue : t.nextReset ≤ t.now + max 0 (t.nextReset - t.now) := by
    linarith [le_max_right 0 (t.nextReset - t.now)]
  generalize t.now + max 0 (t.nextReset - t.now) = now at hwoke hdue
  cases r with
  | poll =>
    refine ⟨{ t with now, shaper, run }, hwoke.step (e := .run .poll) trivial ?_, rfl, rfl, hset⟩
    simp [pacing, Paced.step, hrun]
  | send =>
    refine ⟨{ t with now, shaper, run }, hwoke.step (e := .run .send) trivial ?_, rfl, rfl, hset⟩
    simp [pacing, Paced.step, hrun, hset]
  | interrupt =>
    -- the context is not cancelled
    cases hplace : t.run <;> simp [hplace, Shaper.runStep] at hrun
  | take =>
    obtain ⟨n, q, hready⟩ : ∃ n q, t.run = .ready n q := by
      cases hplace : t.run with
      | ready n q => exact ⟨n, q, rfl⟩
      | _ => simp [hplace, Shaper.runStep] at hrun
    have htook :
        Reach (pacing cfg) (fun _ _ => True)
        (({ t with now, shaper, run } : Paced).took q run.held) := by
      refine hwoke.step (e := .run .take) trivial ?_
      rw [hready] at hrun
      simp [pacing, Paced.step, hready, hrun, hdue]
    obtain ⟨hshaper, hplace⟩ := Paced.took_frame ({ t with now, shaper, run } : Paced) q run.held
    generalize ({ t with now, shaper, run } : Paced).took q run.held = t₂ at htook hshaper hplace
    cases hopen : t₂.unscheduled with
    | none => exact ⟨t₂, htook, hshaper, hplace, hopen⟩
    | some q' =>
      refine ⟨{ t₂ with nextReset := t₂.now + q', unscheduled := none },
        htook.step (e := .schedule) trivial ?_, hshaper, hplace, rfl⟩
      simp only [pacing, Paced.step, hopen]

/-- **Simulation.** What a session does with its shaper, until it is cancelled, is a run of
`pacing`: its flushes and retransmissions are enqueues, and an LQR sets `curM` within `FEC_M`. -/
theorem pacing_of_session {rs : ReedSolomon} {cfg : Config} {ok : Session → SessionEvent → Prop}
    {s : Session} (hr : Reach (session rs cfg) ok s) (hlive : s.cancelled = false) :
    ∃ t, Reach (pacing cfg) (fun _ _ => True) t ∧ t.shaper = s.tx.shaper ∧ t.run = s.tx.run ∧
    t.unscheduled = none := by
  induction hr with
  | init => exact ⟨_, .init, rfl, rfl, rfl⟩
  | @step s s' e hr hok hs ih =>
    have hr' := hr.step hok hs
    obtain ⟨⟨_, out⟩, hstep, rfl⟩ := Option.map_eq_some_iff.mp hs
    have hlive₀ : s.cancelled = false := by
      by_contra hne
      rw [Bool.not_eq_false] at hne
      rw [(Session.step_rxChange hstep).2.2 hne] at hlive
      cases hlive
    obtain ⟨t, ht, hshaper, hrun, hset⟩ := ih hlive₀
    by_cases he : ∃ r, e = .tx (.shaper r)
    · obtain ⟨r, rfl⟩ := he
      cases Session.stepped_of_step hstep with
      | tx _ eff hl hclose heff =>
        cases heff with
        | shaper _ shaper run out' hran =>
          rw [← hshaper, ← hrun, hlive₀] at hran
          exact reach_ran ht hset hran
      | txClose _ eff hl hclose heff =>
        cases heff
        cases hclose
    · have hkeep : ∀ r, e ≠ .tx (.shaper r) := fun r h => he ⟨r, h⟩
      have htuned := tuned_of_reach hr'
      have hqueued := ht.step (e := .enqueueMany (s.handed rs cfg e)) trivial rfl
      refine ⟨_, hqueued.step (e := .setCurM _) trivial (if_pos htuned.bound), ?_, ?_, hset⟩
      · have hstop := (live_of_reach hr hlive₀).1
        have hstop' := (live_of_reach hr' hlive).1
        have hqueue := Session.step_queue hstep hkeep
        rw [Shaper.enqueueMany, hstop] at hqueue
        rw [hshaper, Shaper.enqueueMany, hstop]
        exact Shaper.ext htuned.size.symm htuned.interval.symm hqueue.symm hstop'.symm
      · exact hrun.trans (Session.step_run hstep hkeep).symm

/-! ## Bursts that are paid for -/

/-- An interval long enough for a burst of `n` packets at the rate, with `n` within the cap. -/
structure Priced (rate : ℚ) (cap : Nat) (n : Nat) (q : Int) : Prop where
  pos : 0 < q
  paid : (n : ℚ) ≤ rate * q
  le_cap : n ≤ cap

/-- What holds between the steps when every interval pays for its burst. -/
structure Paced.Conforms (rate : ℚ) (cap : Nat) (s : Paced) : Prop where
  spaced : Spaced rate cap s.taken
  params : Priced rate cap s.shaper.burstSize s.shaper.burstInterval
  ready : ∀ n q, s.run = .ready n q → Priced rate cap n q
  busy : s.unscheduled ≠ none → ∃ pkts, s.run = .sending pkts
  scheduled : s.unscheduled = none → ∀ y ∈ s.taken.getLast?, (y.2 : ℚ) ≤ rate * (s.nextReset - y.1)
  unset : ∀ q, s.unscheduled = some q → ∀ y ∈ s.taken.getLast?, (y.2 : ℚ) ≤ rate * q ∧ y.1 ≤ s.now

namespace Paced

variable {cfg : Config} {rate : ℚ} {cap : Nat} {s s' : Paced}

/-- The queue and the parameters are no part of the log. -/
theorem Conforms.shaper (h : s.Conforms rate cap) {shaper : Shaper}
    (hp : Priced rate cap shaper.burstSize shaper.burstInterval) :
    Conforms rate cap { s with shaper } :=
  ⟨h.spaced, hp, h.ready, h.busy, h.scheduled, h.unset⟩

theorem Conforms.tick (h : s.Conforms rate cap) {d : ℚ} (hd : 0 ≤ d) :
    Conforms rate cap { s with now := s.now + d } := by
  refine ⟨h.spaced, h.params, h.ready, h.busy, h.scheduled, ?_⟩
  intro q hq y hy
  obtain ⟨hpaid, hnow⟩ := h.unset q hq y hy
  exact ⟨hpaid, hnow.trans (le_add_of_nonneg_right hd)⟩

theorem Conforms.schedule (hrate : 0 < rate) (h : s.Conforms rate cap) {q : Int}
    (hq : s.unscheduled = some q) :
    Conforms rate cap { s with nextReset := s.now + q, unscheduled := none } := by
  refine ⟨h.spaced, h.params, h.ready, by simp, ?_, by simp⟩
  intro _ y hy
  obtain ⟨hpaid, hnow⟩ := h.unset q hq y hy
  have hle : rate * q ≤ rate * (s.now + q - y.1) := mul_le_mul_of_nonneg_left (by linarith) hrate.le
  exact hpaid.trans hle

theorem Conforms.set (h : s.Conforms rate cap) (hrun : ∀ pkts, s.run ≠ .sending pkts) :
    s.unscheduled = none := by
  by_contra hne
  obtain ⟨pkts, heq⟩ := h.busy hne
  exact hrun pkts heq

/-- A place of the loop other than `ready` needs no price. -/
theorem Conforms.move (h : s.Conforms rate cap) {run : RunState} (hset : s.unscheduled = none)
    (hrun : ∀ n q, run = .ready n q → Priced rate cap n q) : Conforms rate cap { s with run } :=
  ⟨h.spaced, h.params, hrun, fun hne => absurd hset hne, h.scheduled, h.unset⟩

/-- A burst is taken no earlier than `nextReset`, so the one before it is paid for. -/
theorem Conforms.take (hrate : 0 < rate) (h : s.Conforms rate cap) {n : Nat} {q : Int}
    (hset : s.unscheduled = none) (hp : Priced rate cap n q) (hdue : s.nextReset ≤ s.now)
    {shaper : Shaper} (hparams : shaper.burstSize = s.shaper.burstSize ∧
      shaper.burstInterval = s.shaper.burstInterval)
    {pkts : List Bytes} (hne : pkts ≠ []) (hlen : pkts.length ≤ n) :
    Conforms rate cap (({ s with shaper, run := .sending pkts } : Paced).took q pkts) := by
  rw [took, if_neg hne, if_neg (by have := hp.pos; omega)]
  refine ⟨?_, ?_, by simp, fun _ => ⟨pkts, rfl⟩, by simp, ?_⟩
  · refine h.spaced.concat (hlen.trans hp.le_cap) ?_
    intro y hy
    have hle : rate * (s.nextReset - y.1) ≤ rate * (s.now - y.1) :=
      mul_le_mul_of_nonneg_left (by linarith) hrate.le
    exact (h.scheduled hset y hy).trans hle
  · rw [hparams.1, hparams.2]
    exact h.params
  · intro q' hq' y hy
    cases hq'
    rw [List.getLast?_concat] at hy
    cases hy
    have hcast : (pkts.length : ℚ) ≤ n := by exact_mod_cast hlen
    exact ⟨hcast.trans hp.paid, le_refl _⟩

theorem Conforms.step (hrate : 0 < rate)
    (hpriced : ∀ m ≤ cfg.fecM, Priced rate cap (cfg.fecK + m) (burstInterval cfg (cfg.fecK + m)))
    (h : s.Conforms rate cap) {e : PacedEvent} (hs : s.step cfg e = some s') :
    s'.Conforms rate cap := by
  cases e with
  | enqueue packet =>
    cases hs
    refine h.shaper ?_
    unfold Shaper.enqueue
    split <;> exact h.params
  | enqueueMany packets =>
    cases hs
    refine h.shaper ?_
    unfold Shaper.enqueueMany
    split <;> exact h.params
  | setCurM m =>
    simp only [Paced.step, Option.ite_none_right_eq_some, Option.some.injEq] at hs
    obtain ⟨hm, rfl⟩ := hs
    exact h.shaper (hpriced m hm)
  | tick d =>
    simp only [Paced.step, Option.ite_none_right_eq_some, Option.some.injEq] at hs
    obtain ⟨hd, rfl⟩ := hs
    exact h.tick hd
  | schedule =>
    simp only [Paced.step] at hs
    split at hs
    · rename_i q hq
      cases hs
      exact h.schedule hrate hq
    · cases hs
  | run e =>
    cases e with
    | poll =>
      obtain ⟨⟨shaper, run, out⟩, hrun, rfl⟩ := Option.map_eq_some_iff.mp hs
      have hran := Shaper.ran_of_runStep hrun
      generalize hr : s.run = r at hran
      cases hran with
      | quit hstop => exact h.move (h.set (by simp [hr])) (by simp)
      | poll hst hd hq =>
        refine h.move (h.set (by simp [hr])) ?_
        intro n q heq
        cases heq
        exact h.params
    | take =>
      simp only [Paced.step] at hs
      split at hs
      · rename_i n q hr
        rw [Option.ite_none_right_eq_some] at hs
        obtain ⟨hdue, hs⟩ := hs
        obtain ⟨⟨shaper, run, out⟩, hrun, rfl⟩ := Option.map_eq_some_iff.mp hs
        have hp := h.ready n q hr
        have hset := h.set (by simp [hr])
        have hpos := hp.pos
        cases Shaper.ran_of_runStep hrun with
        | takeAll _ _ hi => omega
        | nothing _ _ hi hn =>
          rw [show RunState.wait.held = [] from rfl, took_nil]
          exact h.move hset (by simp)
        | takeBurst _ _ hi hq hb =>
          have hne : s.shaper.queue.take n ≠ [] := by
            intro hnil
            rcases List.take_eq_nil_iff.mp hnil with hzero | hnil
            · exact hb hzero
            · exact hq hnil
          refine h.take hrate hset hp (hdue.resolve_left (by omega)) ?_ hne
            (List.length_take_le _ _)
          exact ⟨rfl, rfl⟩
      · cases hs
    | interrupt => cases hs
    | send =>
      simp only [Paced.step] at hs
      rw [Option.ite_none_right_eq_some] at hs
      obtain ⟨hset, hs⟩ := hs
      obtain ⟨⟨shaper, run, out⟩, hrun, rfl⟩ := Option.map_eq_some_iff.mp hs
      have hran := Shaper.ran_of_runStep hrun
      generalize hr : s.run = r at hran
      cases hran with
      | burstEnd => exact h.move hset (by simp)
      | abandon pkt pkts hd => cases hd
      | send pkt pkts hd => exact h.move hset (by simp)

end Paced

/-! ## The intervals of a session -/

section Interval

variable {cfg : Config}

/-- The interval is the time for `pkts` packets of the link MTU, cut down to whole milliseconds. -/
theorem burstInterval_eq_floor (hbw : 0 < cfg.bandwidth) (pkts : Nat) :
    burstInterval cfg pkts = ⌊((pkts * cfg.linkMTU * 8 * 1000 : Nat) : ℚ) / cfg.bandwidth⌋₊ := by
  rw [Nat.floor_div_eq_div, burstInterval, if_pos hbw]

/-- Packets of the link MTU in a millisecond. -/
def packetRate (cfg : Config) : ℚ := cfg.bandwidth / (cfg.linkMTU * 8 * 1000 : Nat)

/-- An interval that needs no cut pays for its burst. -/
theorem priced_of_dvd (hK : 1 ≤ cfg.fecK) (hmtu : 1 ≤ cfg.linkMTU) (hbw : 0 < cfg.bandwidth)
    {m : Nat} (hm : m ≤ cfg.fecM) (hdvd : cfg.bandwidth ∣ (cfg.fecK + m) * cfg.linkMTU * 8 * 1000) :
    Priced (packetRate cfg) (cfg.fecK + cfg.fecM) (cfg.fecK + m)
    (burstInterval cfg (cfg.fecK + m)) := by
  obtain ⟨q, hq⟩ := hdvd
  have hbits : 0 < cfg.linkMTU * 8 * 1000 := by omega
  have hcost : 0 < (cfg.fecK + m) * cfg.linkMTU * 8 * 1000 := by
    have hpkts : 0 < cfg.fecK + m := by omega
    positivity
  have hint : burstInterval cfg (cfg.fecK + m) = q := by
    rw [burstInterval, if_pos hbw, hq, Nat.mul_div_cancel_left _ hbw]
  have hpos : 0 < q := by
    rcases Nat.eq_zero_or_pos q with hzero | hpos
    · rw [hq, hzero] at hcost
      omega
    · exact hpos
  refine ⟨by rw [hint]; exact_mod_cast hpos, ?_, by omega⟩
  have hcast : ((cfg.fecK + m : Nat) : ℚ) * (cfg.linkMTU * 8 * 1000 : Nat) = cfg.bandwidth * q := by
    have hnat : (cfg.fecK + m) * (cfg.linkMTU * 8 * 1000) = cfg.bandwidth * q := by
      rw [← hq]
      ring
    exact_mod_cast hnat
  have hne : ((cfg.linkMTU * 8 * 1000 : Nat) : ℚ) ≠ 0 := by exact_mod_cast hbits.ne'
  rw [hint, packetRate, div_mul_eq_mul_div, Int.cast_natCast, ← hcast, mul_div_cancel_right₀ _ hne]

theorem conforms_of_reach (hK : 1 ≤ cfg.fecK) (hmtu : 1 ≤ cfg.linkMTU) (hbw : 0 < cfg.bandwidth)
    (hdvd : ∀ m ≤ cfg.fecM, cfg.bandwidth ∣ (cfg.fecK + m) * cfg.linkMTU * 8 * 1000) {s : Paced}
    (hr : Reach (pacing cfg) (fun _ _ => True) s) :
    s.Conforms (packetRate cfg) (cfg.fecK + cfg.fecM) := by
  have hrate : 0 < packetRate cfg := by
    rw [packetRate]
    exact div_pos (by exact_mod_cast hbw) (by
      exact_mod_cast (by omega : 0 < cfg.linkMTU * 8 * 1000))
  have hpriced : ∀ m ≤ cfg.fecM, Priced (packetRate cfg) (cfg.fecK + cfg.fecM) (cfg.fecK + m)
      (burstInterval cfg (cfg.fecK + m)) := fun m hm => priced_of_dvd hK hmtu hbw hm (hdvd m hm)
  refine hr.invariant (I := Paced.Conforms (packetRate cfg) (cfg.fecK + cfg.fecM)) ?_ ?_
  · exact ⟨spaced_nil, hpriced _ (le_refl _), by simp [pacing], by simp [pacing], by simp [pacing],
      by simp [pacing]⟩
  · intro s e s' h _ hs
    exact h.step hrate hpriced hs

end Interval

/-! ## Runs that use what a cut leaves -/

/-- The loop waits with an empty queue, and the next burst may be taken at once. -/
structure Paced.AtRest (n : Nat) (q : Int) (s : Paced) : Prop where
  run : s.run = .wait
  queue : s.shaper.queue = []
  running : s.shaper.stopped = false
  size : s.shaper.burstSize = n
  interval : s.shaper.burstInterval = q
  set : s.unscheduled = none
  due : s.nextReset ≤ s.now

section Rounds

variable {cfg : Config} {s : Paced}

theorem reach_sent (pkts : List Bytes) (hset : s.unscheduled = none)
    (hr : Reach (pacing cfg) (fun _ _ => True) { s with run := .sending pkts }) :
    Reach (pacing cfg) (fun _ _ => True) { s with run := .wait } := by
  induction pkts with
  | nil =>
    refine hr.step (e := .run .send) trivial ?_
    simp [pacing, Paced.step, Shaper.runStep, hset]
  | cons pkt pkts ih =>
    refine ih (hr.step (e := .run .send) trivial ?_)
    simp [pacing, Paced.step, Shaper.runStep, hset]

/-- **One round**: `n` packets are enqueued and taken at once, and the next burst is due `q`
milliseconds later. -/
theorem Paced.AtRest.round {n : Nat} {q : Int} (h : s.AtRest n q) (hn : 0 < n) (hq : 0 < q)
    (hr : Reach (pacing cfg) (fun _ _ => True) s) :
    ∃ s', Reach (pacing cfg) (fun _ _ => True) s' ∧ s'.AtRest n q ∧ s'.now = s.now + q ∧
      s'.taken = s.taken ++ [(s.now, n)] := by
  obtain ⟨⟨size, interval, queue, stopped⟩, run, now, nextReset, unscheduled, taken⟩ := s
  obtain ⟨hrun, hqueue, hrunning, hsize, hinterval, hset, hdue⟩ := h
  dsimp only at hrun hqueue hrunning hsize hinterval hset hdue
  subst hrun hqueue hrunning hsize hinterval hset
  have hpaced : ¬ interval ≤ 0 := by omega
  have hpolled : Reach (pacing cfg) (fun _ _ => True)
      ⟨⟨size, interval, List.replicate size [], false⟩, .ready size interval, now, nextReset, none,
        taken⟩ := by
    refine (hr.step (e := .enqueueMany (List.replicate size [])) trivial rfl).step
      (e := .run .poll) trivial ?_
    simp [pacing, Paced.step, Shaper.enqueueMany, Shaper.runStep, hn.ne']
  have htaken : Reach (pacing cfg) (fun _ _ => True)
      ⟨⟨size, interval, [], false⟩, .sending (List.replicate size []), now, nextReset,
        some interval, taken ++ [(now, size)]⟩ := by
    refine hpolled.step (e := .run .take) trivial ?_
    simp [pacing, Paced.step, Shaper.runStep, Paced.took, RunState.held, hdue, hpaced, hn.ne']
  have hsent : Reach (pacing cfg) (fun _ _ => True)
      ⟨⟨size, interval, [], false⟩, .wait, now, now + interval, none, taken ++ [(now, size)]⟩ := by
    refine @reach_sent cfg ⟨⟨size, interval, [], false⟩, .wait, now, now + interval, none,
      taken ++ [(now, size)]⟩
      (List.replicate size []) rfl (htaken.step (e := .schedule) trivial rfl)
  refine ⟨_, hsent.step (e := .tick interval) trivial (if_pos ?_), ?_, rfl, rfl⟩
  · exact_mod_cast hq.le
  · exact ⟨rfl, rfl, rfl, rfl, rfl, rfl, le_refl _⟩

/-- Any number of bursts, one after the other. -/
theorem Paced.AtRest.rounds {n : Nat} {q : Int} (h : s.AtRest n q) (hn : 0 < n) (hq : 0 < q)
    (hr : Reach (pacing cfg) (fun _ _ => True) s) (hlog : s.taken = []) (hnow : s.now = 0)
    (N : Nat) :
    ∃ s', Reach (pacing cfg) (fun _ _ => True) s' ∧ s'.AtRest n q ∧ s'.now = N * q ∧
      s'.taken = (List.range N).map fun i : Nat => ((i : ℚ) * q, n) := by
  induction N with
  | zero => exact ⟨s, hr, h, by simp [hnow], hlog⟩
  | succ N ih =>
    obtain ⟨s₁, hr₁, h₁, hnow₁, hlog₁⟩ := ih
    obtain ⟨s₂, hr₂, h₂, hnow₂, hlog₂⟩ := h₁.round hn hq hr₁
    refine ⟨s₂, hr₂, h₂, ?_, ?_⟩
    · rw [hnow₂, hnow₁]
      push_cast
      ring
    · rw [hlog₂, hlog₁, hnow₁, List.range_succ, List.map_append, List.map_singleton]

theorem reach_setCurM {m : Nat} (hm : m ≤ cfg.fecM) :
    ∃ s, Reach (pacing cfg) (fun _ _ => True) s ∧
      s.AtRest (cfg.fecK + m) (burstInterval cfg (cfg.fecK + m)) ∧ s.taken = [] ∧ s.now = 0 :=
  ⟨_, Reach.init.step (e := .setCurM m) trivial (if_pos hm),
    ⟨rfl, rfl, rfl, rfl, rfl, rfl, le_refl _⟩, rfl, rfl⟩

/-- With an interval of 0 any number of packets goes out at once. -/
theorem Paced.AtRest.flood {n : Nat} (h : s.AtRest n 0)
    (hr : Reach (pacing cfg) (fun _ _ => True) s) (hlog : s.taken = []) (hnow : s.now = 0) {k : Nat}
    (hk : 0 < k) :
    ∃ s', Reach (pacing cfg) (fun _ _ => True) s' ∧ s'.taken = [(0, k)] := by
  obtain ⟨⟨size, interval, queue, stopped⟩, run, now, nextReset, unscheduled, taken⟩ := s
  obtain ⟨hrun, hqueue, hrunning, hsize, hinterval, hset, hdue⟩ := h
  dsimp only at hrun hqueue hrunning hsize hinterval hset hdue hlog hnow
  subst hrun hqueue hrunning hsize hinterval hset hlog hnow
  have hpolled : Reach (pacing cfg) (fun _ _ => True)
      ⟨⟨size, 0, List.replicate k [], false⟩, .ready size 0, 0, nextReset, none, []⟩ := by
    refine (hr.step (e := .enqueueMany (List.replicate k [])) trivial rfl).step
      (e := .run .poll) trivial ?_
    simp [pacing, Paced.step, Shaper.enqueueMany, Shaper.runStep, hk.ne']
  refine ⟨⟨⟨size, 0, [], false⟩, .sending (List.replicate k []), 0, nextReset, none, [(0, k)]⟩, ?_,
    rfl⟩
  refine hpolled.step (e := .run .take) trivial ?_
  simp [pacing, Paced.step, Shaper.runStep, Paced.took, RunState.held, hk.ne']

/-- More than the bandwidth and a full burst allow is taken in some window. -/
def Paced.Exceeds (cfg : Config) (s : Paced) : Prop :=
  ∃ a T : ℚ, 0 ≤ T ∧
    cfg.bandwidth * T + (cfg.fecK + cfg.fecM) * cfg.linkMTU * 8 <
    s.dequeued a (a + 1000 * T) * (cfg.linkMTU * 8)

/-- After enough rounds what the cut leaves outweighs the `extra` packets of the allowance. -/
theorem rounds_outweigh {bandwidth q pkts bits : Nat} (h : bandwidth * q < pkts * bits)
    (extra : Nat) :
    bandwidth * ((extra * bits + 1) * q) + (pkts + extra) * bits <
      (extra * bits + 2) * pkts * bits := by
  have hround : (extra * bits + 1) * (bandwidth * q + 1) ≤ (extra * bits + 1) * (pkts * bits) :=
    Nat.mul_le_mul_left _ h
  nlinarith

/-- An interval that is cut lets a long enough run exceed the bandwidth. -/
theorem exceeds_of_cut (hmtu : 1 ≤ cfg.linkMTU) (hbw : 0 < cfg.bandwidth) {m : Nat}
    (hm : m ≤ cfg.fecM) (hcut : ¬ cfg.bandwidth ∣ (cfg.fecK + m) * cfg.linkMTU * 8 * 1000) :
    ∃ s, Reach (pacing cfg) (fun _ _ => True) s ∧ s.Exceeds cfg := by
  obtain ⟨s, hr, h, hlog, hnow⟩ := reach_setCurM hm
  have hmtu' : (1 : ℚ) ≤ cfg.linkMTU := by exact_mod_cast hmtu
  have hpkts : 0 < cfg.fecK + m := by
    rcases Nat.eq_zero_or_pos (cfg.fecK + m) with hzero | hpos
    · simp [hzero] at hcut
    · exact hpos
  rcases Nat.eq_zero_or_pos (burstInterval cfg (cfg.fecK + m)) with hzero | hpos
  · -- no shaping at all: one burst of more than `K + M` packets
    rw [hzero] at h
    obtain ⟨s', hr', hlog'⟩ := h.flood hr hlog hnow (Nat.succ_pos (cfg.fecK + cfg.fecM))
    refine ⟨s', hr', 0, 0, le_refl _, ?_⟩
    rw [Paced.dequeued, hlog', within_of_forall (by simp)]
    simp only [List.map_singleton, List.sum_singleton]
    push_cast
    nlinarith
  · -- every round gains a fraction of a packet on the bandwidth
    have hint : burstInterval cfg (cfg.fecK + m) =
        (cfg.fecK + m) * cfg.linkMTU * 8 * 1000 / cfg.bandwidth := by
      rw [burstInterval, if_pos hbw]
    have hshort : cfg.bandwidth * burstInterval cfg (cfg.fecK + m) <
        (cfg.fecK + m) * (cfg.linkMTU * 8 * 1000) := by
      rw [hint, show (cfg.fecK + m) * (cfg.linkMTU * 8 * 1000) =
        (cfg.fecK + m) * cfg.linkMTU * 8 * 1000 by ring]
      exact Nat.lt_of_le_of_ne (Nat.mul_div_le _ _) fun heq => hcut ⟨_, heq.symm⟩
    have hgain := rounds_outweigh hshort (cfg.fecM - m)
    generalize burstInterval cfg (cfg.fecK + m) = q at h hpos hgain
    generalize hk : (cfg.fecM - m) * (cfg.linkMTU * 8 * 1000) + 1 = k at hgain
    obtain ⟨s', hr', -, -, hlog'⟩ := h.rounds hpkts (by exact_mod_cast hpos) hr hlog hnow (k + 1)
    have hall : s'.dequeued 0 (0 + 1000 * (k * q / 1000)) = (k + 1) * (cfg.fecK + m) := by
      rw [Paced.dequeued, hlog', within_of_forall]
      · simp [Function.comp_def]
      · intro y hy
        obtain ⟨i, hi, rfl⟩ := List.mem_map.mp hy
        have hi' : (i : ℚ) ≤ k := by exact_mod_cast Nat.lt_succ_iff.mp (List.mem_range.mp hi)
        have hq : (0 : ℚ) ≤ q := Nat.cast_nonneg _
        constructor
        · exact mul_nonneg (Nat.cast_nonneg _) (by exact_mod_cast hq)
        · have := mul_le_mul_of_nonneg_right hi' hq
          push_cast
          linarith
    refine ⟨s', hr', 0, k * q / 1000, by positivity, ?_⟩
    rw [hall]
    have hcast : (cfg.bandwidth : ℚ) * (k * q) + (cfg.fecK + cfg.fecM) * (cfg.linkMTU * 8 * 1000) <
        (k + 1) * (cfg.fecK + m) * (cfg.linkMTU * 8 * 1000) := by
      have hsum : cfg.fecK + m + (cfg.fecM - m) = cfg.fecK + cfg.fecM := by omega
      rw [show (cfg.fecM - m) * (cfg.linkMTU * 8 * 1000) + 2 = k + 1 by omega, hsum] at hgain
      exact_mod_cast hgain
    push_cast
    linarith

end Rounds

/-- **The bandwidth is kept exactly when no interval is cut.** In every run of enqueues, parity
changes and bursts, every window of `T` seconds carries at most `bandwidth * T` bits and one full
burst of `K + M` packets, counted as packets of the link MTU, if and only if the time for `K + m`
packets is a whole number of milliseconds for each parity count `m`. -/
theorem bandwidth_conformance_iff (cfg : Config) (hK : 1 ≤ cfg.fecK) (hmtu : 1 ≤ cfg.linkMTU)
    (hbw : 0 < cfg.bandwidth) :
    (∀ s, Reach (pacing cfg) (fun _ _ => True) s → ∀ a T : ℚ, 0 ≤ T →
      s.dequeued a (a + 1000 * T) * (cfg.linkMTU * 8) ≤
        cfg.bandwidth * T + (cfg.fecK + cfg.fecM) * cfg.linkMTU * 8) ↔
    ∀ m ≤ cfg.fecM, cfg.bandwidth ∣ (cfg.fecK + m) * cfg.linkMTU * 8 * 1000 := by
  constructor
  · intro hbound m hm
    by_contra hcut
    obtain ⟨s, hr, a, T, hT, hmore⟩ := exceeds_of_cut hmtu hbw hm hcut
    exact absurd hmore (not_lt.mpr (hbound s hr a T hT))
  · intro hdvd s hr a T hT
    have hbits : (0 : ℚ) < (cfg.linkMTU * 8 * 1000 : Nat) := by
      exact_mod_cast (by omega : 0 < cfg.linkMTU * 8 * 1000)
    have hrate : 0 < packetRate cfg := div_pos (by exact_mod_cast hbw) hbits
    have hwin := (conforms_of_reach hK hmtu hbw hdvd hr).spaced.within_le hrate
      (show a ≤ a + 1000 * T by linarith)
    have hprice : packetRate cfg * (1000 * T) * (cfg.linkMTU * 8) = cfg.bandwidth * T := by
      rw [packetRate]
      field_simp
      push_cast
      ring
    have hscaled := mul_le_mul_of_nonneg_right hwin (show (0 : ℚ) ≤ cfg.linkMTU * 8 by positivity)
    rw [add_sub_cancel_left, add_mul, hprice] at hscaled
    rw [Paced.dequeued]
    push_cast at hscaled
    linarith

/-- 2 data shards and up to 1 parity shard over 8000 bit/s: 100 ms for each packet of 100 bytes. -/
def slowConfig : Config :=
  { streamID := 1, linkMTU := 100, bandwidth := 8000, fecK := 2, fecM := 1 }

/-- Two bursts of three packets, 300 ms apart: within the bound for this window. -/
theorem bandwidth_conformance_slow :
    ∃ s, Reach (pacing slowConfig) (fun _ _ => True) s ∧ s.taken = [(0, 3), (300, 3)] ∧
      (s.dequeued 0 (0 + 1000 * (3 / 10)) : ℚ) * (100 * 8) ≤ 8000 * (3 / 10) +
        (2 + 1) * 100 * 8 := by
  obtain ⟨s, hr, hlog⟩ : ∃ s, Reach (pacing slowConfig) (fun _ _ => True) s ∧
      s.taken = [(0, 3), (300, 3)] :=
    Reach.exists_of_runOk _ [.enqueueMany (List.replicate 6 []), .run .poll, .run .take, .schedule,
      .run .send, .run .send, .run .send, .run .send, .run .poll, .tick 300, .run .take] (by
    decide +kernel)
  refine ⟨s, hr, hlog, ?_⟩
  exact_mod_cast (bandwidth_conformance_iff slowConfig (by decide) (by decide) (by decide)).mpr (by
    decide) s hr 0
    (3 / 10) (by norm_num)

/-- 10 data and 3 parity shards over 128 kbit/s with packets of 1500 bytes: 1218.75 ms for a full
block. -/
def cutConfig : Config :=
  { streamID := 1, linkMTU := 1500, bandwidth := 128000, fecK := 10, fecM := 3 }

/-- Two full bursts are 1218 ms apart and carry 312000 bits, where the bandwidth and the allowance
are 311904 bits. -/
theorem bandwidth_exceeded :
    ∃ s, Reach (pacing cutConfig) (fun _ _ => True) s ∧ s.taken = [(0, 13), (1218, 13)] ∧
      (128000 : ℚ) * (1218 / 1000) + (10 + 3) * 1500 * 8 < s.dequeued 0 (0 + 1000 * (1218 / 1000)) *
        (1500 * 8) := by
  obtain ⟨s, hr, hlog⟩ : ∃ s, Reach (pacing cutConfig) (fun _ _ => True) s ∧
      s.taken = [(0, 13), (1218, 13)] :=
    Reach.exists_of_runOk _ ([.enqueueMany (List.replicate 13 []), .run .poll, .run .take,
      .schedule] ++ List.replicate 14 (.run .send) ++
      [.enqueueMany (List.replicate 13 []), .run .poll, .tick 1218, .run .take]) (by decide +kernel)
  refine ⟨s, hr, hlog, ?_⟩
  rw [Paced.dequeued, hlog, within_of_forall (by norm_num)]
  norm_num

end TcpPep
