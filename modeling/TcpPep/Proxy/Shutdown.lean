import TcpPep.Proxy.Aliasing
import TcpPep.Proxy.Horizon

/-!
The end of a stream: the half-close after a CLOSE, and the teardown after two.

CLOSE carries no group number, so the writer takes `maxRecvGrp` for the last
block of the peer, and the teardown does not look at the writer at all.

* `half_close_complete_iff`: a half-close is complete exactly if the last block of
  the peer has been seen;
* `half_close_truncated`: all packets of the only block are lost, and the writer
  half-closes with nothing written;
* `teardown_complete_iff`: a teardown loses nothing exactly if the writer has caught up;
* `teardown_discards`: a teardown that drops a decoded block.
-/

namespace TcpPep

open Protocol Fec FiniteMap ErasureCode Events

/-- No TCP error, no cancellation from outside, hence no RESET either. -/
def Graceful : LinkEvent → Prop
  | .act _ .cancel | .act _ (.tx .readError) | .act _ (.rx (.slotError _)) => False
  | _ => True

instance (e : LinkEvent) : Decidable (Graceful e) := by
  unfold Graceful
  split <;> infer_instance

/-! ## What has been written -/

section Written

variable {rs : ReedSolomon} {lc : LinkConfig} {n : Nat} {code : Code UInt8 lc.fecK n}
  {sent : List Block} {r : Receiver}

/-- Blocks are not empty, so more blocks are more bytes. -/
theorem length_bytesBefore_lt (hne : ∀ blk ∈ sent, blk.bytes ≠ []) {v w : Nat} (h : v < w)
    (hw : w ≤ sent.length) : (bytesBefore sent v).length < (bytesBefore sent w).length := by
  induction w with
  | zero => omega
  | succ w ih =>
    have hblk : sent[w]? = some sent[w] := List.getElem?_eq_getElem hw
    have hpos := List.length_pos_of_ne_nil (hne _ (List.mem_of_getElem? hblk))
    rw [bytesBefore_succ hblk, List.length_append]
    rcases Nat.lt_succ_iff_lt_or_eq.mp h with hlt | rfl
    · have hlast := ih hlt (by omega)
      omega
    · omega

theorem bytesBefore_inj (hne : ∀ blk ∈ sent, blk.bytes ≠ []) {v w : Nat} (hv : v ≤ sent.length)
    (hw : w ≤ sent.length) : bytesBefore sent v = bytesBefore sent w ↔ v = w := by
  constructor
  · intro h
    rcases Nat.lt_trichotomy v w with hlt | heq | hlt
    · have hlen := length_bytesBefore_lt hne hlt hw
      rw [h] at hlen
      omega
    · exact heq
    · have hlen := length_bytesBefore_lt hne hlt hv
      rw [h] at hlen
      omega
  · rintro rfl
    rfl

/-- Where the writer has no block, it has written the blocks before `nextWriteGrp`. -/
theorem RxInv.tcpOut_of_horizon (hk : 0 < lc.fecK) (hrx : RxInv code sent r)
    (ht : Tracking code sent r) (hh : r.horizon = r.written) :
    r.tcpOut = bytesBefore sent r.horizon := by
  have hno : ¬ AtBlock r := fun hat => by
    have hlt := ht.atBlock hk hrx hat
    omega
  have hp := hrx.progress
  rw [hh]
  unfold Progress at hp
  split at hp
  all_goals
    first
    | exact absurd hp.1 hno
    | exact hp

/-- The writer has no byte of its block left to write: it has passed the slots, or only
padding remains. -/
def Receiver.blockWritten (r : Receiver) : Bool :=
  match r.writer, r.current with
  | .write i, some b => (List.range b.k).all fun j => decide (j < i) || (extract (b.slot j)).isEmpty
  | .cleanup, _ | .report, _ | .finish, _ => true
  | _, _ => false

/-- The writer has caught up with `maxRecvGrp`. -/
def Receiver.settled (r : Receiver) : Bool :=
  r.drained || (r.hasRecv && decide (r.nextWriteGrp = r.maxRecvGrp) && r.blockWritten)

/-- The first `i` slots hold the whole block exactly if the others hold padding. -/
theorem Block.bytes_take_iff {blk : Block} {k : Nat} (hlen : blk.data.length = k) (i : Nat) :
    (blk.data.take i).flatMap unframe = blk.bytes ↔
      ∀ j < k, i ≤ j → unframe (blk.data.getD j []) = [] := by
  have hsplit :
      blk.bytes = (blk.data.take i).flatMap unframe ++ (blk.data.drop i).flatMap unframe := by
    rw [← List.flatMap_append, List.take_append_drop, Block.bytes]
  rw [hsplit, List.self_eq_append_right, List.flatMap_eq_nil_iff]
  constructor
  · intro h j hj hij
    refine h _ (List.mem_of_getElem? (i := j - i) ?_)
    rw [List.getElem?_drop, show i + (j - i) = j by omega, List.getD_eq_getElem?_getD,
      List.getElem?_eq_getElem (hlen ▸ hj)]
    rfl
  · intro h d hd
    obtain ⟨m, hm⟩ := List.mem_iff_getElem?.mp hd
    rw [List.getElem?_drop] at hm
    have hlt := (List.getElem?_eq_some_iff.mp hm).1
    have hj := h (i + m) (hlen ▸ hlt) (by omega)
    rwa [List.getD_eq_getElem?_getD, hm] at hj

/-- What is written never goes beyond the writer's block, and `blockWritten` says whether it
goes to its end. -/
theorem RxInv.blockWritten_iff (hk : 0 < lc.fecK) (hwf : ∀ blk ∈ sent, blk.WF rs lc.fecK)
    (hne : ∀ blk ∈ sent, blk.bytes ≠ []) (hrx : RxInv code sent r) (hlt : r.written < sent.length) :
    r.tcpOut <+: bytesBefore sent (r.written + 1) ∧
      (r.tcpOut = bytesBefore sent (r.written + 1) ↔ r.blockWritten = true) := by
  have hp := hrx.progress
  -- the writer has passed the block, has not begun it, or has failed inside it
  have hpast : (∃ blk, sent[r.written]? = some blk ∧
      r.tcpOut = bytesBefore sent r.written ++ blk.bytes) → r.blockWritten = true →
        r.tcpOut <+: bytesBefore sent (r.written + 1) ∧
        (r.tcpOut = bytesBefore sent (r.written + 1) ↔ r.blockWritten = true) := by
    rintro ⟨blk, hblk, hout⟩ hdone
    rw [bytesBefore_succ hblk, hout, hdone]
    simp
  have hbefore : r.tcpOut = bytesBefore sent r.written → r.blockWritten = false →
      r.tcpOut <+: bytesBefore sent (r.written + 1) ∧
        (r.tcpOut = bytesBefore sent (r.written + 1) ↔ r.blockWritten = true) := by
    intro hout hdone
    rw [hout, hdone, bytesBefore_inj hne (by omega) hlt,
      bytesBefore_succ (List.getElem?_eq_getElem hlt)]
    exact ⟨List.prefix_append _ _, by simp⟩
  have hfail : (∃ blk, sent[r.written]? = some blk ∧
      r.tcpOut <+: bytesBefore sent r.written ++ blk.bytes ∧
      r.tcpOut ≠ bytesBefore sent r.written ++ blk.bytes) → r.blockWritten = false →
      r.tcpOut <+: bytesBefore sent (r.written + 1) ∧
        (r.tcpOut = bytesBefore sent (r.written + 1) ↔ r.blockWritten = true) := by
    rintro ⟨blk, hblk, hpre, hshort⟩ hdone
    rw [bytesBefore_succ hblk, hdone]
    exact ⟨hpre, by simpa using hshort⟩
  unfold Progress at hp
  cases hw : r.writer with
  | write i =>
    obtain ⟨⟨b, hb, -⟩, -⟩ : AtBlock r ∧ _ := by simpa only [hw] using hp
    obtain ⟨hdec, hbk, blk, hblk, hfill, hout⟩ := hrx.at_slot hk hw hb
    have hblkwf := hwf blk (List.mem_of_getElem? hblk)
    rw [bytesBefore_succ hblk, hout, List.prefix_append_right_inj, List.append_cancel_left_eq]
    constructor
    · conv_rhs => rw [Block.bytes, ← List.take_append_drop i blk.data, List.flatMap_append]
      exact List.prefix_append _ _
    · rw [Block.bytes_take_iff hblkwf.length_data]
      simp only [Receiver.blockWritten, hw, hb, List.all_eq_true, List.mem_range, Bool.or_eq_true,
        decide_eq_true_eq, List.isEmpty_iff, hbk]
      refine forall_congr' fun j => forall_congr' fun hj => ?_
      rw [(hfill.extract hblkwf hdec hj).1, ← Nat.not_lt, or_iff_not_imp_left]
  | cleanup =>
    rw [hw] at hp
    exact hpast hp.2 (by simp [Receiver.blockWritten, hw])
  | report =>
    rw [hw] at hp
    exact hpast hp.2 (by simp [Receiver.blockWritten, hw])
  | finish =>
    rw [hw] at hp
    exact hpast hp.2 (by simp [Receiver.blockWritten, hw])
  | leave why =>
    rw [hw] at hp
    cases why with
    | writeError => exact hfail hp.2 (by simp [Receiver.blockWritten, hw])
    | _ => exact hbefore hp (by simp [Receiver.blockWritten, hw])
  | returned why =>
    rw [hw] at hp
    cases why with
    | writeError => exact hfail hp.2 (by simp [Receiver.blockWritten, hw])
    | _ => exact hbefore hp (by simp [Receiver.blockWritten, hw])
  | idle =>
    rw [hw] at hp
    exact hbefore hp (by simp [Receiver.blockWritten, hw])
  | wait =>
    rw [hw] at hp
    exact hbefore hp (by simp [Receiver.blockWritten, hw])

/-- **The writer has caught up exactly if every block received is written**, and then no
shard of another block is held. -/
theorem RxInv.settled_iff (hk : 0 < lc.fecK) (hwf : ∀ blk ∈ sent, blk.WF rs lc.fecK)
    (hne : ∀ blk ∈ sent, blk.bytes ≠ []) (hrx : RxInv code sent r) (ht : Tracking code sent r) :
    (r.tcpOut = bytesBefore sent r.horizon ∧
      ∀ g e, r.rxBlocks.lookup g = some e → Blank code e ∨ g = r.nextWriteGrp) ↔
        r.settled = true := by
  have hle := ht.written_le
  have hwin := ht.le_window
  have hsent := ht.le_sent
  -- a group that stands for the writer's block is `nextWriteGrp`
  have hentries : r.horizon ≤ r.written + 1 →
      ∀ g e, r.rxBlocks.lookup g = some e → Blank code e ∨ g = r.nextWriteGrp := by
    intro hh g e he
    refine (ht.filled g e he).imp_right fun hlt => ?_
    have hge : r.written ≤ blockOf r.written g := Serial.le_unwrap _ _ _
    have heq : blockOf r.written g = r.written := by omega
    rw [hrx.next, ← heq, ofNat_blockOf]
  rw [Receiver.settled, Bool.or_eq_true, ht.drained_iff hrx]
  by_cases hh : r.horizon = r.written
  · simp only [hh, true_or, iff_true]
    exact ⟨hh ▸ hrx.tcpOut_of_horizon hk ht hh, hentries (by omega)⟩
  · have hr : r.hasRecv = true := by
      by_contra hr
      have hzero : r.horizon = 0 := by simp [Receiver.horizon, hr]
      omega
    have hlast : r.nextWriteGrp = r.maxRecvGrp ↔ r.horizon = r.written + 1 := by
      rw [hrx.next, ht.maxRecvGrp hr, ← UInt16.toNat_inj, UInt16.toNat_ofNat', UInt16.toNat_ofNat']
      omega
    obtain ⟨hpre, hdone⟩ := hrx.blockWritten_iff hk hwf hne (show r.written < sent.length by omega)
    simp only [hh, false_or, hr, Bool.true_and, Bool.and_eq_true, decide_eq_true_eq, hlast]
    constructor
    · rintro ⟨hout, -⟩
      have hnext : r.horizon = r.written + 1 := by
        by_contra hmore
        have hlen := length_bytesBefore_lt hne (show r.written + 1 < r.horizon by omega) hsent
        have hup := hpre.length_le
        rw [hout] at hup
        omega
      rw [hnext] at hout
      exact ⟨hnext, hdone.mp hout⟩
    · rintro ⟨hnext, hwritten⟩
      rw [hnext]
      exact ⟨hdone.mpr hwritten, hentries (by omega)⟩

end Written

/-! ## The half-close -/

/-- How the writer gets to leave through the CLOSE branch. -/
theorem Link.step_wait {rs : ReedSolomon} {lc : LinkConfig} {s s' : Link} {y : Side}
    (hs : (link rs lc).step s (.act y (.rx .wait)) = some s')
    (hleave : (s'.session y).rx.writer = .leave .closeRecv) :
    s'.session y.other = s.session y.other ∧ (s'.session y).rx.tcpOut = (s.session y).rx.tcpOut ∧
      (s.session y).tx.closeRecv = true ∧ (s.session y).rx.drained = true := by
  simp only [link, Link.step, Link.feed, Session.step, Receiver.step, Option.map_eq_some_iff] at hs
  obtain ⟨r, ⟨eff, heff, rfl⟩, rfl⟩ := hs
  simp only [Option.ite_none_right_eq_some, Option.some.injEq] at heff
  obtain ⟨hw, rfl⟩ := heff
  simp only [Session.applyRx, Function.update_self] at hleave ⊢
  refine ⟨by simp, ?_⟩
  unfold Receiver.waitStep at hleave ⊢
  split at hleave
  · cases hleave
  · split at hleave
    · cases hleave
    · split at hleave
      · rename_i hdone hdec hclose
        rw [Bool.and_eq_true] at hclose
        simp [hdone, hdec, hclose.1, hclose.2]
      · rw [hw] at hleave
        cases hleave

/-- **Half-close.** When the writer leaves through the CLOSE branch, the peer has read to
its end and flushed everything; what is written is all of it exactly if the highest
block received is the peer's last. -/
theorem half_close_complete_iff {rs : ReedSolomon} {lc : LinkConfig} {n : Nat}
    {code : Code UInt8 lc.fecK n} (himpl : Implements rs code) (hv : ∀ x, (lc.side x).Valid n)
    {s s' : Link} (hr : Reach (link rs lc) (Arrivals lc Tracked) s) (x : Side)
    (hs : (link rs lc).step s (.act x.other (.rx .wait)) = some s')
    (hleave : (s'.session x.other).rx.writer = .leave .closeRecv) :
    (s'.session x).tx.reader = .returned ∧ (s'.session x).tx.pendingData = [] ∧
      ((s'.session x.other).rx.tcpOut = (s'.session x).tx.tcpIn ↔
        (s.session x.other).rx.horizon = (s.session x).tx.sent.length) := by
  obtain ⟨hpeer, hout, hclose, hdr⟩ := Link.step_wait hs hleave
  rw [Side.other_other] at hpeer
  have hnear : ∀ r b, Tracked r b → InTurn r b := fun r b h => h.1.inTurn
  have hinv := linkInv_of_reach himpl hv (fun _ _ h => h.mono hnear) hr
  have ht := (tracking_stable hv).of_reach himpl hv hnear (fun _ _ h => h) hr x
  have htx := hinv.tx x
  have hcloser := hinv.closeRecv x hclose
  have hpend := htx.ends.drained (Or.inr (Or.inr hcloser))
  have hh := (ht.drained_iff (hinv.rx x)).mp hdr
  obtain ⟨reads, hreads, -, -, htcp⟩ := htx.inv.1.reads
  have hin : (s.session x).tx.tcpIn = (s.session x).tx.sent.flatMap Block.bytes := by
    rw [hpend] at hreads
    rw [htcp, List.map_eq_nil_iff.mp hreads.symm, List.flatten_nil, List.append_nil]
  have hall : (s.session x).tx.sent.flatMap Block.bytes =
      bytesBefore (s.session x).tx.sent (s.session x).tx.sent.length := by
    rw [bytesBefore, List.take_length]
  rw [hpeer, hout, hin, hall, (hinv.rx x).tcpOut_of_horizon (hv x).one_le ht hh]
  exact ⟨htx.ends.returned hcloser, hpend,
    bytesBefore_inj (fun blk hblk => (htx.inv.1.blocks blk hblk).bytes_ne) ht.le_sent
    (Nat.le_refl _)⟩

/-- The left end reads `data`, then the end of the stream, and flushes. -/
def readToEnd (data : Bytes) : List LinkEvent :=
  [.act .left (.tx .check), .act .left (.tx (.read data)), .act .left (.tx .check),
    .act .left (.tx .eof), .act .left (.tx .finFlush)] ++ sendBlock

/-- An LQR reaches the left end, which ends its wait and sends CLOSE. -/
def ackAndClose : List LinkEvent :=
  [.deliver .left 0 false, .act .left (.tx .finDrain), .act .left (.tx .finAcked),
    .act .left (.tx .closeSend)]

/-- CLOSE is the next packet to the right end. -/
def closeArrives : List LinkEvent := [.deliver .right 0 false, .act .right .finishHandler]

/-- The only block arrives and is written before CLOSE. -/
def completeRun : List LinkEvent :=
  bothStart ++ readToEnd [7] ++ List.replicate 3 (.deliver .right 0 false) ++ writeBlock ++
    ackAndClose ++ closeArrives

theorem half_close_complete_small :
    ∃ s s', Reach (link reedSolomonTwoOne smallLink) (Arrivals smallLink Tracked) s ∧
      (link reedSolomonTwoOne smallLink).step s (.act .right (.rx .wait)) = some s' ∧
      (s'.session .right).rx.writer = .leave .closeRecv ∧
      (s'.session .left).tx.tcpIn = [7] ∧
      (s'.session .right).rx.tcpOut = (s'.session .left).tx.tcpIn := by
  obtain ⟨s, s', hr, hs', ⟨hlen, hhor⟩, hleave, hin⟩ :
      ∃ s s', Reach (link reedSolomonTwoOne smallLink) (Arrivals smallLink Tracked) s ∧
        (link reedSolomonTwoOne smallLink).step s (.act .right (.rx .wait)) = some s' ∧
        ((s.session .left).tx.sent.length = 1 ∧ (s.session .right).rx.horizon = 1) ∧
        (s'.session .right).rx.writer = .leave .closeRecv ∧ (s'.session .left).tx.tcpIn = [7] :=
    Reach.exists_step_of_runOk _ completeRun _ (by decide +kernel)
  exact ⟨s, s', hr, hs', hleave, hin, (@half_close_complete_iff reedSolomonTwoOne smallLink 3 twoOne
    implements_twoOne (smallLink_documented.valid (by decide)) s s' hr .left hs' hleave).2.2.mpr
      (by rw [hlen]; exact hhor)⟩

/-- The right end's LQR timer of group 0 fires. -/
def reportGroupZero : List LinkEvent :=
  [.act .right (.rx (.lqrFire 0)), .act .right (.rx (.lqrRun 0))]

/-- All packets of the only block are lost; the report of group 0 ends the wait. -/
def truncatedRun : List LinkEvent :=
  bothStart ++ readToEnd [1] ++ List.replicate 3 (.drop .right 0) ++ reportGroupZero ++
    ackAndClose ++ closeArrives

/-- **A truncated half-close.** An LQR that reports a block as lost lets CLOSE overtake it. -/
theorem half_close_truncated :
    ∃ s s', Reach (link reedSolomonTwoOne smallLink) (fun _ e => Graceful e ∧ Fifo e) s ∧
      (link reedSolomonTwoOne smallLink).step s (.act .right (.rx .wait)) = some s' ∧
      (s'.session .right).rx.writer = .leave .closeRecv ∧
      (s'.session .left).tx.tcpIn = [1] ∧ (s'.session .right).rx.tcpOut = [] :=
  Reach.exists_step_of_runOk _ truncatedRun _ (by decide +kernel)

/-! ## The teardown -/

/-- The steps by which a session closes itself after both CLOSEs: the end of
`HandleClose`, and the CLOSE goroutine after its first CLOSE. -/
def Teardown (s : Session) : SessionEvent → Prop
  | .finishHandler => s.demux = .closing true
  | .tx .closeFinish => s.tx.closer = .finish true
  | _ => False

instance (s : Session) : Decidable (Teardown s .finishHandler) :=
  inferInstanceAs (Decidable (s.demux = .closing true))

theorem Teardown.step {rs : ReedSolomon} {cfg : Config} {s s' : Session} {e : SessionEvent}
    {out : List Bytes} (h : Teardown s e) (hs : s.step rs cfg e = some (s', out)) :
    s'.cancelled = true ∧ s'.rx = s.rx := by
  unfold Teardown at h
  split at h
  · simp only [Session.step, Option.ite_none_left_eq_some, Option.some.injEq, Prod.mk.injEq] at hs
    obtain ⟨-, rfl, rfl⟩ := hs
    simp [Session.finishHandler, h, Session.close]
  · simp only [Session.step, Sender.step, h, Option.ite_none_right_eq_some, Option.map_some,
      Option.some.injEq, Session.applyTx, ↓reduceIte, Prod.mk.injEq] at hs
    obtain ⟨-, rfl, rfl⟩ := hs
    exact ⟨rfl, rfl⟩
  · cases h

/-- **Teardown.** When a session closes itself, every byte of every block up to the highest
one received has been written and no shard of another block goes away, exactly if the
writer had caught up. -/
theorem teardown_complete_iff {rs : ReedSolomon} {lc : LinkConfig} {n : Nat}
    {code : Code UInt8 lc.fecK n} (himpl : Implements rs code) (hv : ∀ x, (lc.side x).Valid n)
    {s s' : Link} (hr : Reach (link rs lc) (Arrivals lc Tracked) s) (x : Side) {e : SessionEvent}
    (hdown : Teardown (s.session x.other) e) (hs : (link rs lc).step s (.act x.other e) = some s') :
    (s'.session x.other).cancelled = true ∧
      (((s'.session x.other).rx.tcpOut =
            bytesBefore (s'.session x).tx.sent (s'.session x.other).rx.horizon ∧
          ∀ g b, (s'.session x.other).rx.rxBlocks.lookup g = some b →
            Blank code b ∨ g = (s'.session x.other).rx.nextWriteGrp) ↔
        (s.session x.other).rx.settled = true) := by
  have hnear : ∀ r b, Tracked r b → InTurn r b := fun r b h => h.1.inTurn
  have hinv := linkInv_of_reach himpl hv (fun _ _ h => h.mono hnear) hr
  have ht := (tracking_stable hv).of_reach himpl hv hnear (fun _ _ h => h) hr x
  have hblocks := (hinv.tx x).inv.1.blocks
  have hfeed : s.feed rs lc x.other e = some s' := by
    cases e <;> first | exact hs | cases hs
  simp only [Link.feed, Option.map_eq_some_iff, Prod.exists] at hfeed
  obtain ⟨sy, out, hstep, rfl⟩ := hfeed
  obtain ⟨hcancel, hrx⟩ := hdown.step hstep
  simp only [Function.update_self, ne_eq, Side.ne_other, not_false_eq_true, Function.update_of_ne]
  rw [hrx]
  exact ⟨hcancel, (hinv.rx x).settled_iff (hv x).one_le (fun blk hblk => (hblocks blk hblk).toWF)
    (fun blk hblk => (hblocks blk hblk).bytes_ne) ht⟩

/-- The right end has nothing to send and sends CLOSE. -/
def rightCloses : List LinkEvent :=
  [.act .right (.tx .check), .act .right (.tx .eof), .act .right (.tx .finFlush),
    .act .right (.tx .finDrain), .act .right (.tx .finAcked), .act .right (.tx .closeSend),
    .act .right (.tx .closeMark), .act .right (.tx .closeFinish), .deliver .left 0 false,
    .act .left .finishHandler]

/-- The right end closes first, gets the only block and writes it before CLOSE. -/
def settledRun : List LinkEvent :=
  bothStart ++ rightCloses ++ readToEnd [7] ++ List.replicate 3 (.deliver .right 0 false) ++
    writeBlock ++ ackAndClose ++ [.deliver .right 0 false]

theorem teardown_complete_small :
    ∃ s s', Reach (link reedSolomonTwoOne smallLink) (Arrivals smallLink Tracked) s ∧
      Teardown (s.session .right) .finishHandler ∧
      (link reedSolomonTwoOne smallLink).step s (.act .right .finishHandler) = some s' ∧
      (s'.session .right).cancelled = true ∧ (s'.session .right).rx.horizon = 1 ∧
      (s'.session .right).rx.tcpOut =
        bytesBefore (s'.session .left).tx.sent (s'.session .right).rx.horizon := by
  obtain ⟨s, s', hr, hs', ⟨hdemux, hset⟩, hhor⟩ :
      ∃ s s', Reach (link reedSolomonTwoOne smallLink) (Arrivals smallLink Tracked) s ∧
        (link reedSolomonTwoOne smallLink).step s (.act .right .finishHandler) = some s' ∧
        ((s.session .right).demux = .closing true ∧ (s.session .right).rx.settled = true) ∧
        (s'.session .right).rx.horizon = 1 :=
    Reach.exists_step_of_runOk _ settledRun _ (by decide +kernel)
  obtain ⟨hcancel, hiff⟩ :=
    @teardown_complete_iff reedSolomonTwoOne smallLink 3 twoOne implements_twoOne
    (smallLink_documented.valid (by decide)) s s' hr .left .finishHandler hdemux hs'
  exact ⟨s, s', hr, hdemux, hs', hcancel, hhor, (hiff.mpr hset).1⟩

/-- The report of group 0 overtakes the block, and CLOSE arrives right behind it. -/
def discardRun : List LinkEvent :=
  bothStart ++ rightCloses ++ readToEnd [7] ++ reportGroupZero ++ ackAndClose ++
    List.replicate 4 (.deliver .right 0 false)

/-- **A teardown that discards a decoded block.** CLOSE finds `closeSent` set before the writer has
run. -/
theorem teardown_discards :
    ∃ s s', Reach (link reedSolomonTwoOne smallLink) (fun _ e => Graceful e ∧ Fifo e) s ∧
      (link reedSolomonTwoOne smallLink).step s (.act .right .finishHandler) = some s' ∧
      Teardown (s.session .right) .finishHandler ∧
      (s'.session .right).cancelled = true ∧ (s'.session .right).rx.nextWriteGrp = 0 ∧
      (s'.session .right).rx.maxRecvGrp = 0 ∧
      ((s'.session .right).rx.rxBlocks.lookup 0).map RxBlock.decoded = some true ∧
      (s'.session .left).tx.tcpIn = [7] ∧ (s'.session .right).rx.tcpOut = [] :=
  Reach.exists_step_of_runOk _ discardRun _ (by decide +kernel)

end TcpPep
