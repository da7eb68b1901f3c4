import TcpPep.Protocol.Header

/-!
The packet shaper: `shaper/shaper.go`.

`Run` is a loop that gives up the lock between reading the parameters, sleeping
and taking packets; `RunState` is where it stands. Its sleep until the next
burst has no effect on the queue, so a `take` at `ready` may come at any time, and
so may the `interrupt` of a sleep by the context: whether a sleep is due is left open
here. Without one, or after it, the loop takes packets whether the context is
cancelled or not. Durations are whole milliseconds.
-/

namespace TcpPep

open TcpPep.Protocol

@[ext] structure Shaper where
  burstSize : Nat
  burstInterval : Int
  queue : List Bytes := []
  stopped : Bool := false
  deriving DecidableEq

def newShaper (burstSize : Nat) (burstInterval : Int) : Shaper := { burstSize, burstInterval }

namespace Shaper

def updateParams (s : Shaper) (burstSize : Nat) (burstInterval : Int) : Shaper :=
  { s with burstSize, burstInterval }

def enqueueMany (s : Shaper) (packets : List Bytes) : Shaper :=
  if s.stopped then s else { s with queue := s.queue ++ packets }

def enqueue (s : Shaper) (packet : Bytes) : Shaper :=
  if s.stopped then s else { s with queue := s.queue ++ [packet] }

def stop (s : Shaper) : Shaper := { s with stopped := true }

def queueLen (s : Shaper) : Nat := s.queue.length

end Shaper

/-- Where the `Run` loop stands. -/
inductive RunState where
  | wait
  | ready (burstSize : Nat) (burstInterval : Int)
  | sending (pkts : List Bytes)
  | returned
  deriving DecidableEq

/-- The steps of the `Run` loop. -/
inductive RunEvent where
  | poll
  | take
  /-- The context ends the sleep before the next burst. -/
  | interrupt
  | send
  deriving DecidableEq

/-- One step of `Run`: the shaper, the loop's new place and what `sendFn` sends.
`done` is whether the context is cancelled. -/
def Shaper.runStep (s : Shaper) (done : Bool) :
    RunState → RunEvent → Option (Shaper × RunState × List Bytes)
  | .wait, .poll =>
    if s.stopped || done then some (s, .returned, [])
    else if s.queue.isEmpty then none
    else some (s, .ready s.burstSize s.burstInterval, [])
  | .ready burstSize burstInterval, .take =>
    -- without an interval there is no shaping: the whole queue goes out
    if burstInterval ≤ 0 then some ({ s with queue := [] }, .sending s.queue, [])
    else
      let n := if s.queue.length > burstSize then burstSize else s.queue.length
      if n = 0 then some (s, .wait, [])
      else some ({ s with queue := s.queue.drop n }, .sending (s.queue.take n), [])
  | .ready _ burstInterval, .interrupt =>
    if burstInterval ≤ 0 then none
    else if done then some (s, .returned, [])
    else none
  | .sending [], .send => some (s, .wait, [])
  | .sending (pkt :: pkts), .send =>
    if done then some (s, .returned, []) else some (s, .sending pkts, [pkt])
  | _, _ => none

/-- The packets `Run` has taken and not sent yet. -/
def RunState.held : RunState → List Bytes
  | .sending pkts => pkts
  | _ => []

/-- The steps of `Run` with what guards them and what they do. -/
inductive Shaper.Ran (done : Bool) (s : Shaper) : RunState → RunEvent → Shaper → RunState →
    List Bytes → Prop
  | quit (h : s.stopped = true ∨ done = true) : Ran done s .wait .poll s .returned []
  | poll (hs : s.stopped = false) (hd : done = false) (hq : s.queue ≠ []) :
      Ran done s .wait .poll s (.ready s.burstSize s.burstInterval) []
  | takeAll (burstSize : Nat) (burstInterval : Int) (hi : burstInterval ≤ 0) :
      Ran done s (.ready burstSize burstInterval) .take { s with queue := [] } (.sending s.queue) []
  | cancelled (burstSize : Nat) (burstInterval : Int) (hi : 0 < burstInterval) (hd : done = true) :
      Ran done s (.ready burstSize burstInterval) .interrupt s .returned []
  | nothing (burstSize : Nat) (burstInterval : Int) (hi : 0 < burstInterval)
      (hn : s.queue = [] ∨ burstSize = 0) :
        Ran done s (.ready burstSize burstInterval) .take s .wait []
  | takeBurst (burstSize : Nat) (burstInterval : Int) (hi : 0 < burstInterval)
      (hq : s.queue ≠ []) (hb : burstSize ≠ 0) :
      Ran done s (.ready burstSize burstInterval) .take { s with queue := s.queue.drop burstSize }
        (.sending (s.queue.take burstSize)) []
  | burstEnd : Ran done s (.sending []) .send s .wait []
  | abandon (pkt : Bytes) (pkts : List Bytes) (hd : done = true) :
      Ran done s (.sending (pkt :: pkts)) .send s .returned []
  | send (pkt : Bytes) (pkts : List Bytes) (hd : done = false) :
      Ran done s (.sending (pkt :: pkts)) .send s (.sending pkts) [pkt]

theorem Shaper.ran_of_runStep {done : Bool} {s s' : Shaper} {r r' : RunState} {e : RunEvent}
    {out : List Bytes} (h : s.runStep done r e = some (s', r', out)) :
    s.Ran done r e s' r' out := by
  cases r with
  | wait =>
    cases e with
    | poll =>
      simp only [runStep] at h
      split at h
      · rename_i hstop
        cases h
        exact .quit (by simpa using hstop)
      · rename_i hgo
        simp only [Bool.or_eq_true, not_or, Bool.not_eq_true] at hgo
        split at h
        · cases h
        · rename_i hq
          cases h
          exact .poll hgo.1 hgo.2 (by simpa using hq)
    | _ => cases h
  | ready burstSize burstInterval =>
    cases e with
    | take =>
      simp only [runStep] at h
      split at h
      · rename_i hi
        cases h
        exact .takeAll burstSize burstInterval hi
      · rename_i hi
        split at h
        · rename_i hlong
          split at h
          · rename_i hzero
            cases h
            exact .nothing burstSize burstInterval (by omega) (Or.inr hzero)
          · rename_i hb
            cases h
            refine .takeBurst burstSize burstInterval (by omega) ?_ hb
            exact List.ne_nil_of_length_pos (by omega)
        · rename_i hshort
          split at h
          · rename_i hzero
            cases h
            exact .nothing burstSize burstInterval (by
              omega) (Or.inl (List.length_eq_zero_iff.mp hzero))
          · rename_i hne
            -- a queue within the burst goes out whole
            have hq : s.queue ≠ [] := fun hnil => hne (List.length_eq_zero_iff.mpr hnil)
            have hburst : s.Ran done (.ready burstSize burstInterval) .take _ _ [] :=
              .takeBurst burstSize burstInterval (by omega) hq (by omega)
            rw [List.take_of_length_le (by omega), List.drop_of_length_le (by omega)] at hburst
            rw [List.take_length, List.drop_length] at h
            cases h
            exact hburst
    | interrupt =>
      simp only [runStep] at h
      split at h
      · cases h
      · rename_i hi
        split at h
        · rename_i hd
          cases h
          exact .cancelled burstSize burstInterval (by omega) hd
        · cases h
    | _ => cases h
  | sending pkts =>
    cases e with
    | send =>
      cases pkts with
      | nil =>
        cases h
        exact .burstEnd
      | cons pkt pkts =>
        simp only [runStep] at h
        split at h
        · rename_i hd
          cases h
          exact .abandon pkt pkts hd
        · rename_i hd
          cases h
          exact .send pkt pkts (by simpa using hd)
    | _ => cases pkts <;> cases h
  | returned => cases e <;> cases h

/-- `Run` reads the parameters and leaves them alone. -/
theorem Shaper.Ran.params {done : Bool} {s s' : Shaper} {r r' : RunState} {e : RunEvent}
    {out : List Bytes} (h : s.Ran done r e s' r' out) :
    s'.burstSize = s.burstSize ∧ s'.burstInterval = s.burstInterval := by
  cases h <;> exact ⟨rfl, rfl⟩

/-- `Run` does not stop its own shaper. -/
theorem Shaper.Ran.stopped {done : Bool} {s s' : Shaper} {r r' : RunState} {e : RunEvent}
    {out : List Bytes} (h : s.Ran done r e s' r' out) : s'.stopped = s.stopped := by
  cases h <;> rfl

/-- `Run` can always take a step, unless it has returned or waits with nothing to do. -/
theorem Shaper.runStep_enabled (s : Shaper) (done : Bool) {r : RunState} (hrun : r ≠ .returned)
    (hwait : r = .wait → s.stopped = true ∨ done = true ∨ s.queue ≠ []) :
    ∃ e s' r' out, s.runStep done r e = some (s', r', out) := by
  cases r with
  | returned => exact absurd rfl hrun
  | wait =>
    refine ⟨.poll, ?_⟩
    by_cases hquit : (s.stopped || done) = true
    · exact ⟨s, .returned, [], by simp [runStep, hquit]⟩
    · have hq : s.queue.isEmpty = false := by
        simp only [Bool.or_eq_true, not_or] at hquit
        simpa [hquit.1, hquit.2] using hwait rfl
      exact ⟨s, .ready s.burstSize s.burstInterval, [], by simp [runStep, hquit, hq]⟩
  | ready size interval =>
    refine ⟨.take, ?_⟩
    by_cases hi : interval ≤ 0
    · exact ⟨_, _, _, by rw [runStep, if_pos hi]⟩
    · simp only [runStep, hi, ↓reduceIte]
      generalize (if s.queue.length > size then size else s.queue.length) = num
      by_cases hn : num = 0
      · exact ⟨s, .wait, [], by rw [if_pos hn]⟩
      · exact ⟨_, .sending (s.queue.take num), [], by rw [if_neg hn]⟩
  | sending pkts =>
    refine ⟨.send, ?_⟩
    cases pkts with
    | nil => exact ⟨s, .wait, [], rfl⟩
    | cons pkt pkts =>
      cases done with
      | true => exact ⟨s, .returned, [], rfl⟩
      | false => exact ⟨s, .sending pkts, [pkt], rfl⟩

/-- A step of `Run` only moves packets: what is sent, held or queued afterwards
was held or queued before. -/
theorem Shaper.runStep_mem {done : Bool} {s s' : Shaper} {r r' : RunState} {e : RunEvent}
    {out : List Bytes} (h : s.runStep done r e = some (s', r', out)) (pkt : Bytes)
    (hp : pkt ∈ out ∨ pkt ∈ r'.held ∨ pkt ∈ s'.queue) : pkt ∈ r.held ∨ pkt ∈ s.queue := by
  cases ran_of_runStep h with
  | takeBurst burstSize burstInterval hi hq hb =>
    simp only [RunState.held, List.not_mem_nil, false_or] at hp ⊢
    rcases hp with hp | hp
    · exact List.mem_of_mem_take hp
    · exact List.mem_of_mem_drop hp
  | abandon first rest hd =>
    simp only [RunState.held, List.not_mem_nil, false_or] at hp
    exact Or.inr hp
  | send first rest hd =>
    simp only [RunState.held, List.mem_cons, List.not_mem_nil, or_false] at hp ⊢
    tauto
  | _ => simpa [RunState.held] using hp

theorem Shaper.mem_enqueueMany {s : Shaper} {pkts : List Bytes} {pkt : Bytes}
    (h : pkt ∈ (s.enqueueMany pkts).queue) : pkt ∈ s.queue ∨ pkt ∈ pkts := by
  unfold Shaper.enqueueMany at h
  split at h
  · exact Or.inl h
  · exact List.mem_append.mp h

theorem Shaper.mem_foldl_enqueue {s : Shaper} {pkts : List Bytes} {pkt : Bytes}
    (h : pkt ∈ (pkts.foldl Shaper.enqueue s).queue) : pkt ∈ s.queue ∨ pkt ∈ pkts := by
  induction pkts generalizing s with
  | nil => exact Or.inl h
  | cons p pkts ih =>
    rcases ih h with hq | hq
    · unfold Shaper.enqueue at hq
      split at hq
      · exact Or.inl hq
      · rcases List.mem_append.mp hq with hq | hq
        · exact Or.inl hq
        · exact Or.inr (List.mem_cons.mpr (Or.inl (List.mem_singleton.mp hq)))
    · exact Or.inr (List.mem_cons_of_mem _ hq)

end TcpPep
