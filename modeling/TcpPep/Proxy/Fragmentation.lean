import TcpPep.Proxy.FailedFlush

/-!
No fragmentation.

The largest read leaves room for the IP, UDP and DATA headers and the length prefix: 36 bytes in
all. A parity shard is as long as the longest data shard of its block, and a retransmission
is a data packet of an earlier block. So the bound is one on the blocks of the history.

* `Fec.InPlace`: the encoder does not change the length of a shard;
* `Session.handed`, `Session.step_queue`: what a step gives to `Enqueue` or `EnqueueMany`;
* `FitsLink`: a datagram that crosses the link and the peer's read buffer in one piece;
* `no_fragmentation`: every DATA or parity datagram does, first sent or retransmitted.
-/

namespace TcpPep

open Protocol Fec FiniteMap Events

/-! ## The length of a parity shard -/

namespace Fec

variable {rs : ReedSolomon}

/-- `Encode` writes the parity into the slices it is given. -/
def InPlace (rs : ReedSolomon) : Prop :=
  ∀ k m enc shards out, rs.new k m = some enc → enc.encode shards = some out →
    out.map List.length = shards.map List.length

theorem length_of_encode (hplace : InPlace rs) {k m : Nat} {data parityShards : List Bytes}
    (h : encode rs k m data = some parityShards) {p : Bytes} (hp : p ∈ parityShards) :
    p.length = max 1 (maxLen data) := by
  unfold encode at h
  split at h
  · cases h
    cases hp
  · split at h
    · cases h
    · rename_i enc henc
      simp only at h
      split at h
      · cases h
      · rename_i out hout
        cases h
        have hmem : p.length ∈ out.map List.length :=
          List.mem_map_of_mem (List.mem_of_mem_drop (List.mem_of_mem_take hp))
        rw [hplace _ _ _ _ _ henc hout] at hmem
        obtain ⟨shard, hshard, hlen⟩ := List.mem_map.mp hmem
        have hmax : shard.length = if maxLen data = 0 then 1 else maxLen data := by
          rcases List.mem_append.mp hshard with hshard | hshard
          · obtain ⟨i, -, rfl⟩ := List.mem_map.mp hshard
            exact length_padded _ _
          · rw [(List.mem_replicate.mp hshard).2, List.length_replicate]
        rw [← hlen, hmax]
        split <;> omega

theorem inPlace_twoOne : InPlace reedSolomonTwoOne := by
  intro k m enc shards out hnew henc
  simp only [reedSolomonTwoOne, Option.ite_none_right_eq_some, Option.some.injEq] at hnew
  obtain ⟨-, rfl⟩ := hnew
  simp only [encodeTwoOne] at henc
  split at henc
  · simp only [Option.ite_none_right_eq_some, Option.some.injEq] at henc
    obtain ⟨⟨hab, hbp, -⟩, rfl⟩ := henc
    simp [hab, hbp]
  · cases henc

end Fec

/-! ## The datagrams of a block -/

/-- A DATA datagram that crosses the link and the peer's read buffer in one piece, with a length
prefix that states how many bytes follow it. -/
structure FitsLink (cfg : Config) (a : Bytes) : Prop where
  packet : ∃ p : Packet, p.type = .data ∧ marshal p = .ok a ∧
    (p.isParity = false → ∃ hi lo d, p.payload = hi :: lo :: d ∧ (uint16 hi lo).toNat = d.length)
  link : a.length + 28 ≤ cfg.linkMTU
  buffer : a.length ≤ 2048
  whole : readUDP a = unmarshal a

section Block

variable {rs : ReedSolomon} {cfg : Config} {blk : Block}

theorem frame_cons {x : Bytes} (h : x.length < 65536) :
    ∃ hi lo, frame x = hi :: lo :: x ∧ (uint16 hi lo).toNat = x.length := by
  refine ⟨_, _, rfl, ?_⟩
  rw [uint16_putUint16, UInt16.toNat_ofNat']
  exact Nat.mod_eq_of_lt h

theorem FitsLink.of_payload (hle : cfg.linkMTU ≤ 1500) (hge : 37 ≤ cfg.linkMTU) {p : Packet}
    {a : Bytes} (ht : p.type = .data) (hm : marshal p = .ok a)
    (hlen : p.payload.length ≤ maxPayload cfg + 2)
    (hpre : p.isParity = false → ∃ hi lo d, p.payload = hi :: lo :: d ∧
      (uint16 hi lo).toNat = d.length) :
    FitsLink cfg a := by
  have hmax : maxPayload cfg = cfg.linkMTU - 36 := by
    rw [maxPayload, if_neg (by omega)]
  have ha := length_marshal_data hm ht
  have hbuf : a.length ≤ 2048 := by omega
  exact ⟨⟨p, ht, hm, hpre⟩, by omega, hbuf, by rw [readUDP, List.take_of_length_le hbuf]⟩

theorem Block.Filled.fitsLink (hplace : InPlace rs) (hge : 37 ≤ cfg.linkMTU)
    (hle : cfg.linkMTU ≤ 1500) (h : blk.Filled cfg)
    (hpar : blk.parity = Fec.encode rs cfg.fecK blk.m blk.data) {g : UInt16} {q : UInt8}
    {p : Packet} (hp : p ∈ blk.packetsAt cfg g q) {a : Bytes} (hm : marshal p = .ok a) :
    FitsLink cfg a := by
  have hlong : ∀ d ∈ blk.data, d.length ≤ maxPayload cfg + 2 := by
    intro d hd
    obtain ⟨x, hx, rfl⟩ := h.framed d hd
    rw [length_frame]
    omega
  unfold Block.packetsAt at hp
  split at hp
  · cases hp
  · rename_i parityShards henc
    rcases List.mem_append.mp hp with hp | hp
    · obtain ⟨i, hi, rfl⟩ := List.mem_map.mp hp
      have hlt : i < blk.data.length := by
        have := List.mem_range.mp hi
        have := h.length_data
        omega
      have hmem : blk.data.getD i [] ∈ blk.data := by
        rw [List.getD_eq_getElem?_getD, List.getElem?_eq_getElem hlt]
        exact List.getElem_mem hlt
      refine .of_payload hle hge rfl hm (hlong _ hmem) fun _ => ?_
      obtain ⟨x, hx, heq⟩ := h.framed _ hmem
      have hshort : x.length < 65536 := by
        have hmax : maxPayload cfg = cfg.linkMTU - 36 := by
          rw [maxPayload, if_neg (by omega)]
        omega
      obtain ⟨hi, lo, hframe, hlen⟩ := frame_cons hshort
      exact ⟨hi, lo, x, heq.trans hframe, hlen⟩
    · obtain ⟨j, -, rfl⟩ := List.mem_map.mp hp
      refine .of_payload hle hge rfl hm ?_ (fun hdata => by cases hdata)
      show (parityShards.getD j []).length ≤ _
      rw [List.getD_eq_getElem?_getD]
      cases hj : parityShards[j]? with
      | none => exact Nat.zero_le _
      | some shard =>
        rw [Option.getD_some,
          length_of_encode hplace (hpar.symm.trans henc) (List.mem_of_getElem? hj)]
        exact Nat.max_le.mpr ⟨by omega, maxLen_le hlong⟩

end Block

/-- The parity of every block is what `Encode` gave for it. -/
def Sender.ParityEncoded (rs : ReedSolomon) (cfg : Config) (s : Sender) : Prop :=
  ∀ blk ∈ s.sent, blk.parity = Fec.encode rs cfg.fecK blk.m blk.data

theorem Sender.ParityEncoded.turn {rs : ReedSolomon} {cfg : Config} {s s' : Sender}
    (h : s.ParityEncoded rs cfg) (hturn : Turn rs cfg s s') : s'.ParityEncoded rs cfg := by
  by_cases hsame : s'.sent = s.sent
  · intro blk hblk
    rw [hsame] at hblk
    exact h blk hblk
  · obtain ⟨new, hsent⟩ := hturn.grown hsame
    obtain ⟨t, -, hnew, -⟩ := hturn.flushed hsent
    intro blk hblk
    rw [hsent] at hblk
    rcases List.mem_append.mp hblk with hblk | hblk
    · exact h blk hblk
    · rw [List.mem_singleton.mp hblk, hnew]
      rfl

/-! ## What is handed to the shaper -/

namespace Sender

/-- The datagrams a step of the sending half gives to `EnqueueMany`: those of the block it flushes.
-/
def handed (rs : ReedSolomon) (cfg : Config) (s : Sender) : TxEvent → List Bytes
  | .read data =>
    if s.pendingData.length + 1 < cfg.fecK then
    [] else (s.append data .unset 0).nextDatagrams rs cfg
  | .finFlush | .timerRun => if s.pendingData = [] then [] else s.nextDatagrams rs cfg
  | _ => []

variable {rs : ReedSolomon} {cfg : Config} {s : Sender}

theorem queue_enqueueMany_nil (q : Shaper) : (q.enqueueMany []).queue = q.queue := by
  unfold Shaper.enqueueMany
  split <;> simp

theorem flush_queue (hne : s.pendingData ≠ []) :
    (s.flushPendingBlockLocked rs cfg).shaper.queue =
      (s.shaper.enqueueMany (s.nextDatagrams rs cfg)).queue := by
  cases henc : Fec.encode rs cfg.fecK s.curM (s.paddedPending cfg) with
  | none =>
    have hnil : s.nextDatagrams rs cfg = [] := by
      simp [nextDatagrams, nextBlock, Block.packetsAt, henc]
    rw [flush_fail hne henc, hnil, queue_enqueueMany_nil]
  | some parityShards => rw [flush_eq hne henc]

theorem flush_queue_pending :
    (s.flushPendingBlockLocked rs cfg).shaper.queue =
      (s.shaper.enqueueMany (if s.pendingData = [] then [] else s.nextDatagrams rs cfg)).queue := by
  by_cases hne : s.pendingData = []
  · rw [flush_of_empty hne, if_pos hne, queue_enqueueMany_nil]
  · rw [flush_queue hne, if_neg hne]

theorem Stepped.queue {done : Bool} {e : TxEvent} {eff : Effect Sender}
    (hs : Stepped rs cfg done s e eff) (he : ∀ r, e ≠ .shaper r) :
    eff.state.shaper.queue = (s.shaper.enqueueMany (s.handed rs cfg e)).queue := by
  cases hs with
  | read data hr hne hle =>
    obtain ⟨timer, loose, heq⟩ := readTCP_eq rs cfg s data
    simp only [handed, heq]
    split
    · exact (queue_enqueueMany_nil _).symm
    · exact flush_queue (by simp [append])
  | finFlush hr hd => exact flush_queue_pending
  | timerRun hc => exact flush_queue_pending
  | shaper r shaper run out hrun => exact absurd rfl (he r)
  | _ => exact (queue_enqueueMany_nil _).symm

/-- A handed datagram is one of the block the step adds to the history. -/
theorem Stepped.handed_block {done : Bool} {e : TxEvent} {eff : Effect Sender}
    (hs : Stepped rs cfg done s e eff) {a : Bytes} (ha : a ∈ s.handed rs cfg e) :
    ∃ blk ∈ eff.state.sent, ∃ g q p, p ∈ blk.packetsAt cfg g q ∧ marshal p = .ok a := by
  have hnext : ∀ t : Sender, t.pendingData ≠ [] → a ∈ t.nextDatagrams rs cfg →
      ∃ blk ∈ (t.flushPendingBlockLocked rs cfg).sent, ∃ g q p, p ∈ blk.packetsAt cfg g q ∧
      marshal p = .ok a := by
    intro t hne ha
    obtain ⟨p, hp, ha⟩ := List.mem_flatMap.mp ha
    rw [flush_sent hne]
    exact ⟨_, by simp, _, _, p, hp, mem_sendPacketDirect.mp ha⟩
  cases hs with
  | read data hr hne hle =>
    obtain ⟨timer, loose, heq⟩ := readTCP_eq rs cfg s data
    simp only [handed] at ha
    split at ha
    · cases ha
    · rename_i hfull
      rw [heq, if_neg hfull]
      exact hnext (s.append data .unset loose) (by simp [append]) ha
  | finFlush hr hd =>
    simp only [handed] at ha
    split at ha
    · cases ha
    · exact hnext s ‹_› ha
  | timerRun hc =>
    simp only [handed] at ha
    split at ha
    · cases ha
    · exact hnext { s with callbacks := s.callbacks - 1 } ‹_› ha
  | _ => cases ha

end Sender

namespace Session

/-- The datagrams a step gives to the shaper: a flushed block, or the packet of a NAK. -/
def handed (rs : ReedSolomon) (cfg : Config) (s : Session) : SessionEvent → List Bytes
  | .tx e => s.tx.handed rs cfg e
  | .finishHandler =>
    match s.demux with
    | .retransmit p => sendPacketDirect p
    | _ => []
  | _ => []

variable {rs : ReedSolomon} {cfg : Config} {s s' : Session} {e : SessionEvent} {out : List Bytes}

theorem handle_queue (p : Packet) : (s.handle rs cfg p).tx.shaper.queue = s.tx.shaper.queue := by
  unfold handle
  split
  · rfl
  · split <;> rfl
  · obtain ⟨m, ok, blocks, size, interval, heq, -⟩ := Sender.handleLQR_eq cfg s.tx p
    rw [heq]
    rfl
  · rfl
  · rfl
  · rfl

theorem finishHandler_queue :
    s.finishHandler.tx.shaper.queue =
      (s.tx.shaper.enqueueMany (s.handed rs cfg .finishHandler)).queue := by
  unfold finishHandler handed
  split
  · rename_i hd
    simp only [hd]
    exact (Sender.queue_enqueueMany_nil _).symm
  · rename_i p hd
    simp only [hd, sendPacketDirect]
    cases marshal p with
    | error err => exact (Sender.queue_enqueueMany_nil _).symm
    | ok buf => rfl
  · rename_i both hd
    simp only [hd]
    split <;> exact (Sender.queue_enqueueMany_nil s.tx.shaper).symm

/-- **Step lemma.** Every step but those of the shaper's own loop enqueues what it hands over. -/
theorem step_queue (hs : s.step rs cfg e = some (s', out)) (he : ∀ r, e ≠ .tx (.shaper r)) :
    s'.tx.shaper.queue = (s.tx.shaper.enqueueMany (s.handed rs cfg e)).queue := by
  cases stepped_of_step hs with
  | tx e eff hl hclose heff => exact heff.queue fun r h => he r (by rw [h])
  | txClose e eff hl hclose heff => exact heff.queue fun r h => he r (by rw [h])
  | recv p hd => exact (handle_queue p).trans (Sender.queue_enqueueMany_nil _).symm
  | finishHandler hd => exact finishHandler_queue
  | _ => exact (Sender.queue_enqueueMany_nil s.tx.shaper).symm

/-- A handed datagram is one of a block of the history. -/
theorem step_handed (h : s.Sourced cfg) (hs : s.step rs cfg e = some (s', out)) {a : Bytes}
    (ha : a ∈ s.handed rs cfg e) :
    ∃ blk ∈ s'.tx.sent, ∃ g q p, p ∈ blk.packetsAt cfg g q ∧ marshal p = .ok a := by
  have hhist := (step_turn hs).history
  cases stepped_of_step hs with
  | tx e eff hl hclose heff => exact heff.handed_block ha
  | txClose e eff hl hclose heff => exact heff.handed_block ha
  | finishHandler hd =>
    simp only [handed] at ha
    split at ha
    · rename_i p hp
      obtain ⟨b, blk, q, hblk, hmem⟩ := h.retransmit p hp
      exact ⟨blk, hhist.subset (List.mem_of_getElem? hblk), _, q, p, hmem,
        mem_sendPacketDirect.mp ha⟩
    · cases ha
  | _ => cases ha

end Session

/-! ## The bound -/

/-- **No fragmentation.** For a link MTU of 37 to 1500 bytes, any `K` and any parity count, whatever
is read, flushed and retransmitted: every datagram a step hands to the shaper, and every one the
shaper has queued or taken, fits the link with its IP and UDP headers, fits the peer's read buffer,
and has a length prefix that states its true data length unless it carries parity. -/
theorem no_fragmentation {rs : ReedSolomon} {cfg : Config} (hplace : InPlace rs)
    (hge : 37 ≤ cfg.linkMTU) (hle : cfg.linkMTU ≤ 1500) {s : Session}
    (hr : Reach (session rs cfg) (fun _ _ => True) s) :
    (∀ e s' out, s.step rs cfg e = some (s', out) →
      (∀ a ∈ s.handed rs cfg e, FitsLink cfg a) ∧
      ((∀ r, e ≠ .tx (.shaper r)) →
        s'.tx.shaper.queue = (s.tx.shaper.enqueueMany (s.handed rs cfg e)).queue)) ∧
    ∀ a, a ∈ s.tx.run.held ∨ a ∈ s.tx.shaper.queue → FitsLink cfg a := by
  have hfits : ∀ t : Session, Reach (session rs cfg) (fun _ _ => True) t →
      ∀ blk ∈ t.tx.sent, ∀ g q p a, p ∈ blk.packetsAt cfg g q → marshal p = .ok a →
      FitsLink cfg a := by
    intro t ht blk hblk g q p a hp hm
    have hpar : t.tx.ParityEncoded rs cfg :=
      @turn_invariant rs cfg (newSession cfg) t (Sender.ParityEncoded rs cfg) (by
        simp [Sender.ParityEncoded, newSession, newSender])
        (fun _ _ h => h.turn) _ ht
    exact ((reconciled_of_reach ht).1.blocks blk hblk).fitsLink hplace hge hle (hpar blk hblk) hp hm
  have hsrc := sourced_of_reach hr
  constructor
  · intro e s' out hs
    refine ⟨?_, Session.step_queue hs⟩
    intro a ha
    obtain ⟨blk, hblk, g, q, p, hp, hm⟩ := Session.step_handed hsrc hs ha
    have hr' : Reach (session rs cfg) (fun _ _ => True) s' := by
      refine hr.step (e := e) trivial ?_
      simp [session, hs]
    exact hfits s' hr' blk hblk g q p a hp hm
  · intro a ha
    obtain ⟨b, p, ⟨blk, q, hblk, hp⟩, hm⟩ := hsrc.tx.queue a ha
    exact hfits s hr blk (List.mem_of_getElem? hblk) _ q p a hp hm

/-- The second read of a block hands over its three datagrams, each within a link MTU of 100. -/
theorem no_fragmentation_small :
    ∃ s, Reach (session reedSolomonTwoOne smallConfig) (fun _ _ => True) s ∧
      (s.handed reedSolomonTwoOne smallConfig (.tx (.read [9]))).length = 3 ∧
      ∀ a ∈ s.handed reedSolomonTwoOne smallConfig (.tx (.read [9])), a.length + 28 ≤ 100 ∧
      readUDP a = unmarshal a := by
  obtain ⟨s, s', hr, hs, hlen⟩ : ∃ s s',
      Reach (session reedSolomonTwoOne smallConfig) (fun _ _ => True) s ∧
      (session reedSolomonTwoOne smallConfig).step s (.tx (.read [9])) = some s' ∧
      (s.handed reedSolomonTwoOne smallConfig (.tx (.read [9]))).length = 3 :=
    Reach.exists_step_of_runOk _ [.launch, .tx .check, .tx (.read [7]), .tx .check] _ (by
      decide +kernel)
  obtain ⟨⟨_, out⟩, hstep, -⟩ := Option.map_eq_some_iff.mp hs
  refine ⟨s, hr, hlen, fun a ha => ?_⟩
  have hfits := ((no_fragmentation inPlace_twoOne (by decide) (by decide) hr).1 _ _ _ hstep).1 a ha
  exact ⟨hfits.link, hfits.whole⟩

end TcpPep
