import TcpPep.Lib.Machine
import TcpPep.Shaper.Shaper

/-!
The shaper as a queue.

Callers enqueue packets and change the parameters at any point of the `Run` loop,
which reads the parameters, sleeps and takes packets in separate steps. Nobody stops
the shaper and nobody cancels the context here.

* `shaping`: a shaper, its `Run` loop and its callers as a machine;
* `Shaping.Sequenced`: what is sent, held and queued is what was enqueued, and a burst that is
  due finds packets;
* `shaper_fifo`: no packet is lost, doubled or overtaken, no burst is longer than the size it was
  scheduled with, and none is empty.
-/

namespace TcpPep

open Protocol Events

/-- A call of the shaper's methods, or a step of its `Run` loop. -/
inductive ShaperEvent where
  | enqueue (packet : Bytes)
  | enqueueMany (packets : List Bytes)
  | updateParams (burstSize : Nat) (burstInterval : Int)
  | run (e : RunEvent)
  deriving DecidableEq

structure Shaping where
  shaper : Shaper
  run : RunState := .wait
  /-- what `sendFn` has been given -/
  sent : List Bytes := []
  /-- the packets of each `Enqueue` and `EnqueueMany`, in the order in which they took the lock -/
  calls : List (List Bytes) := []
  deriving DecidableEq

namespace Shaping

def step (s : Shaping) : ShaperEvent → Option Shaping
  | .enqueue packet =>
    some { s with shaper := s.shaper.enqueue packet, calls := s.calls ++ [[packet]] }
  | .enqueueMany packets =>
    some { s with shaper := s.shaper.enqueueMany packets, calls := s.calls ++ [packets] }
  | .updateParams burstSize burstInterval =>
    some { s with shaper := s.shaper.updateParams burstSize burstInterval }
  | .run e =>
    (s.shaper.runStep false s.run e).map fun r =>
    { s with shaper := r.1, run := r.2.1, sent := s.sent ++ r.2.2 }

end Shaping

def shaping (burstSize : Nat) (burstInterval : Int) : Machine Shaping ShaperEvent where
  init := { shaper := newShaper burstSize burstInterval }
  step := Shaping.step

/-- The callers ask for bursts of one packet at least. -/
def PositiveBurst (_ : Shaping) : ShaperEvent → Prop
  | .updateParams burstSize _ => 1 ≤ burstSize
  | _ => True

instance (s : Shaping) (e : ShaperEvent) : Decidable (PositiveBurst s e) := by
  unfold PositiveBurst
  split <;> infer_instance

/-- What holds between the steps. -/
structure Shaping.Sequenced (s : Shaping) : Prop where
  order : s.sent ++ s.run.held ++ s.shaper.queue = s.calls.flatten
  running : s.shaper.stopped = false
  size : 1 ≤ s.shaper.burstSize
  due : ∀ burstSize burstInterval, s.run = .ready burstSize burstInterval → 1 ≤ burstSize ∧
    s.shaper.queue ≠ []

namespace Shaping

variable {s s' : Shaping} {e : ShaperEvent}

theorem sequenced_init {burstSize : Nat} (h : 1 ≤ burstSize) (burstInterval : Int) :
    (shaping burstSize burstInterval).init.Sequenced where
  order := rfl
  running := rfl
  size := h
  due := by
    intro _ _ hrun
    cases hrun

/-- More packets at the end of the queue leave a burst that is due what it has. -/
theorem Sequenced.append (h : s.Sequenced) (packets : List Bytes) :
    Sequenced { s with
      shaper := { s.shaper with queue := s.shaper.queue ++ packets }
      calls := s.calls ++ [packets] } where
  order := by
    rw [List.flatten_append, ← h.order]
    simp
  running := h.running
  size := h.size
  due := by
    intro burstSize burstInterval hrun
    obtain ⟨hb, hq⟩ := h.due burstSize burstInterval hrun
    exact ⟨hb, List.append_ne_nil_of_left_ne_nil hq _⟩

/-- **Step lemma of `Run`.** A packet goes from the queue to the burst and from the burst to
`sendFn`. -/
theorem Sequenced.ran (h : s.Sequenced) {e : RunEvent} {shaper : Shaper} {run : RunState}
    {out : List Bytes} (hran : s.shaper.Ran false s.run e shaper run out) :
    Sequenced { s with shaper, run, sent := s.sent ++ out } := by
  obtain ⟨sh, r, sent, calls⟩ := s
  obtain ⟨horder, hrunning, hsize, hdue⟩ := h
  dsimp only at horder hrunning hsize hdue hran ⊢
  cases hran with
  | quit hstop => simp [hrunning] at hstop
  | poll hs hd hq =>
    refine ⟨by simpa [RunState.held] using horder, hrunning, hsize, ?_⟩
    intro burstSize burstInterval heq
    cases heq
    exact ⟨hsize, hq⟩
  | takeBurst burstSize burstInterval hi hq hb =>
    refine ⟨?_, hrunning, hsize, by simp⟩
    rw [← horder]
    simp [RunState.held]
  | abandon pkt pkts hd => cases hd
  | _ => exact ⟨by simpa [RunState.held] using horder, hrunning, hsize, by simp⟩

theorem Sequenced.step (h : s.Sequenced) (hok : PositiveBurst s e) (hs : s.step e = some s') :
    s'.Sequenced := by
  cases e with
  | enqueue packet =>
    cases hs
    rw [Shaper.enqueue, if_neg (by simp [h.running])]
    exact h.append [packet]
  | enqueueMany packets =>
    cases hs
    rw [Shaper.enqueueMany, if_neg (by simp [h.running])]
    exact h.append packets
  | updateParams burstSize burstInterval =>
    cases hs
    exact ⟨h.order, h.running, hok, h.due⟩
  | run e =>
    obtain ⟨⟨shaper, run, out⟩, hrun, rfl⟩ := Option.map_eq_some_iff.mp hs
    exact h.ran (Shaper.ran_of_runStep hrun)

/-- A burst that is due takes packets, and no more than its size when it is paced. -/
theorem Sequenced.take (h : s.Sequenced) {burstSize : Nat} {burstInterval : Int}
    (hrun : s.run = .ready burstSize burstInterval) :
    ∃ s' pkts, s.step (.run .take) = some s' ∧ s'.run = .sending pkts ∧ pkts ≠ [] ∧
      (0 < burstInterval → pkts.length ≤ burstSize) := by
  obtain ⟨hb, hq⟩ := h.due burstSize burstInterval hrun
  have hlen := List.length_pos_iff.mpr hq
  simp only [Shaping.step, hrun, Shaper.runStep]
  by_cases hi : burstInterval ≤ 0
  · rw [if_pos hi]
    exact ⟨_, s.shaper.queue, rfl, rfl, hq, fun hpos => by omega⟩
  · rw [if_neg hi]
    generalize hn : (if s.shaper.queue.length > burstSize then burstSize
      else s.shaper.queue.length) = n
    have hle : 0 < n ∧ n ≤ burstSize := by
      split at hn <;> omega
    rw [if_neg (by omega)]
    refine ⟨_, s.shaper.queue.take n, rfl, rfl, ?_, fun _ => ?_⟩
    · intro hnil
      rcases List.take_eq_nil_iff.mp hnil with hzero | hnil
      · omega
      · exact hq hnil
    · rw [List.length_take]
      omega

end Shaping

/-- **The shaper is a lossless queue.** For every interleaving of calls and steps of `Run`, with the
parameters changed at any point: what `sendFn` has been given, the rest of the burst and the
queue, in this order, are the packets enqueued, call by call. The loop reads size and interval
together; a burst that is due is never empty, and a paced one is not longer than the size
that was read. -/
theorem shaper_fifo {burstSize : Nat} {burstInterval : Int} (hsize : 1 ≤ burstSize) {s : Shaping}
    (hr : Reach (shaping burstSize burstInterval) PositiveBurst s) :
    s.sent ++ s.run.held ++ s.shaper.queue = s.calls.flatten ∧
    (∀ s', (shaping burstSize burstInterval).step s (.run .poll) = some s' →
      s'.run = .ready s.shaper.burstSize s.shaper.burstInterval) ∧
    ∀ size interval, s.run = .ready size interval → ∃ s' pkts,
      (shaping burstSize burstInterval).step s (.run .take) = some s' ∧ s'.run = .sending pkts ∧
        pkts ≠ [] ∧ (0 < interval → pkts.length ≤ size) := by
  have h : s.Sequenced :=
    hr.invariant (I := Shaping.Sequenced) (Shaping.sequenced_init hsize burstInterval)
    fun s e s' h hok hs => h.step hok hs
  refine ⟨h.order, ?_, fun size interval hrun => h.take hrun⟩
  intro s' hs
  obtain ⟨⟨shaper, run, out⟩, hrun, rfl⟩ := Option.map_eq_some_iff.mp hs
  have hran := Shaper.ran_of_runStep hrun
  generalize s.run = r at hran
  cases hran with
  | quit hstop => simp [h.running] at hstop
  | poll hs hd hq => rfl

/-- Two packets are enqueued, one of which is sent before the interval is switched off; the third
goes out with it. -/
theorem shaper_fifo_small :
    ∃ s, Reach (shaping 1 10) PositiveBurst s ∧ s.sent = [[7]] ∧ s.run = .ready 1 0 ∧
      [[7]] ++ s.run.held ++ s.shaper.queue = [[7], [8], [9]] ∧
      ∃ s' pkts, (shaping 1 10).step s (.run .take) = some s' ∧ s'.run = .sending pkts ∧
      pkts ≠ [] := by
  obtain ⟨s, hr, hsent, hrun, hcalls⟩ : ∃ s, Reach (shaping 1 10) PositiveBurst s ∧ s.sent = [[7]] ∧
      s.run = .ready 1 0 ∧ s.calls.flatten = [[7], [8], [9]] :=
    Reach.exists_of_runOk _ [.enqueueMany [[7], [8]], .run .poll, .run .take, .updateParams 1 0,
      .run .send, .run .send, .run .poll, .enqueue [9]] (by decide +kernel)
  obtain ⟨horder, -, htake⟩ := shaper_fifo (by decide) hr
  obtain ⟨s', pkts, hs, hrun', hne, -⟩ := htake 1 0 hrun
  rw [hsent, hcalls] at horder
  exact ⟨s, hr, hsent, hrun, horder, s', pkts, hs, hrun', hne⟩

end TcpPep
