import TcpPep.Protocol.Codec
import TcpPep.Proxy.Sequence

/-!
What becomes of the bytes a session has read.

Three callers flush the pending reads: the reader when a block is full, a timer callback,
and the end of the stream. A callback may come late and flush what belongs to the next
block. The history accounts for every byte all the same.

* `Sender.Account`: the bytes read are those of the flushed blocks and the pending ones;
* `Sender.Due`: pending reads have a timer or a callback that will flush them;
* `sender_conserves`: both over every run, and what the flush of a block emits.
-/

namespace TcpPep

open Protocol Fec FiniteMap Events

/-! ## Accounts -/

/-- A block as a flush fills it. A block has one shard even for `K = 0`. -/
structure Block.Filled (cfg : Config) (blk : Block) : Prop where
  length_data : blk.data.length = max cfg.fecK 1
  framed : ∀ d ∈ blk.data, ∃ x : Bytes, x.length ≤ maxPayload cfg ∧ d = frame x
  bytes_ne : blk.bytes ≠ []

namespace Sender

variable {rs : ReedSolomon} {cfg : Config} {s s' : Sender}

/-- The bytes read are those of the blocks, sent or not, and those still pending. -/
structure Account (cfg : Config) (s : Sender) : Prop where
  blocks : ∀ blk ∈ s.sent, blk.Filled cfg
  reads : ∃ reads : List Bytes, s.pendingData = reads.map frame ∧
    (∀ d ∈ reads, d ≠ [] ∧ d.length ≤ maxPayload cfg) ∧
      s.tcpIn = s.sent.flatMap Block.bytes ++ reads.flatten

theorem account_new (cfg : Config) : (newSender cfg).Account cfg where
  blocks := by simp [newSender]
  reads := ⟨[], rfl, by simp, rfl⟩

theorem Account.of_same (h : s.Account cfg) (hsame : SameBooks s s') : s'.Account cfg where
  blocks := by rw [hsame.sent]; exact h.blocks
  reads := by rw [hsame.sent, hsame.pending, hsame.tcpIn]; exact h.reads

theorem Account.append (h : s.Account cfg) {data : Bytes} (hne : data ≠ [])
    (hle : data.length ≤ maxPayload cfg) (timer : BlockTimer) (loose : Nat) :
    (s.append data timer loose).Account cfg := by
  obtain ⟨reads, hpend, hreads, htcp⟩ := h.reads
  refine ⟨h.blocks, reads ++ [data], ?_, ?_, ?_⟩
  · simp [Sender.append, hpend]
  · intro d hd
    rcases List.mem_append.mp hd with hd | hd
    · exact hreads d hd
    · rw [List.mem_singleton.mp hd]
      exact ⟨hne, hle⟩
  · simp [Sender.append, htcp]

theorem Account.filled (h : s.Account cfg) (hne : s.pendingData ≠ [])
    (hle : s.pendingData.length ≤ max cfg.fecK 1) :
    (s.nextBlock rs cfg).Filled cfg := by
  obtain ⟨reads, hpend, hreads, -⟩ := h.reads
  have hpos := List.length_pos_iff.mpr hne
  constructor
  · simp only [nextBlock, paddedPending, List.length_append, List.length_replicate]
    omega
  · intro d hd
    obtain ⟨x, hx | rfl, rfl⟩ := mem_nextBlock_data hpend hd
    · exact ⟨x, (hreads x hx).2, rfl⟩
    · exact ⟨[], Nat.zero_le _, rfl⟩
  · exact nextBlock_bytes_ne_nil hpend hne fun d hd => (hreads d hd).1

/-- **Step lemma for a flush**, failed or not. -/
theorem Account.flush (h : s.Account cfg) (hle : s.pendingData.length ≤ max cfg.fecK 1) :
    (s.flushPendingBlockLocked rs cfg).Account cfg := by
  by_cases hne : s.pendingData = []
  · rw [flush_of_empty hne]
    exact h
  · obtain ⟨reads, hpend, -, htcp⟩ := h.reads
    constructor
    · rw [flush_sent hne]
      intro blk hblk
      rcases List.mem_append.mp hblk with hblk | hblk
      · exact h.blocks blk hblk
      · rw [List.mem_singleton.mp hblk]
        exact h.filled hne hle
    · refine ⟨[], flush_pendingData rs cfg s, by simp, ?_⟩
      rw [flush_tcpIn, flush_sent hne, List.flatMap_append, htcp]
      simp [nextBlock_bytes hpend]

/-- Between two steps there is room for a read in the block. -/
def Reconciled (cfg : Config) (s : Sender) : Prop :=
  s.Account cfg ∧ s.pendingData.length < max cfg.fecK 1

theorem Reconciled.turn (h : s.Reconciled cfg) (ht : Turn rs cfg s s') : s'.Reconciled cfg := by
  obtain ⟨hacc, hlt⟩ := h
  have hflush : ∀ t : Sender, t.Account cfg → t.pendingData.length ≤ max cfg.fecK 1 → ∀ t' : Sender,
      SameBooks (t.flushPendingBlockLocked rs cfg) t' → t'.Reconciled cfg := by
    intro t ht hle t' hsame
    refine ⟨(@Account.flush rs cfg t ht hle).of_same hsame, ?_⟩
    rw [hsame.pending, flush_pendingData]
    exact Nat.lt_of_lt_of_le Nat.zero_lt_one (Nat.le_max_right _ _)
  cases ht with
  | same hsame => exact ⟨hacc.of_same hsame, by rw [hsame.pending]; exact hlt⟩
  | read data hne hle hshort timer loose heq =>
    rw [heq]
    refine ⟨(hacc.append hne hle timer loose).of_same ⟨rfl, rfl, rfl, rfl, rfl, rfl⟩, ?_⟩
    have hlen : (s.append data timer loose).pendingData.length = s.pendingData.length + 1 := by
      simp [Sender.append]
    show (s.append data timer loose).pendingData.length < _
    omega
  | full data hne hle hfull loose heq =>
    rw [heq]
    refine hflush (s.append data .unset loose) (hacc.append hne hle .unset loose) ?_ _ ⟨rfl, rfl,
      rfl, rfl, rfl, rfl⟩
    have hlen : (s.append data .unset loose).pendingData.length = s.pendingData.length + 1 := by
      simp [Sender.append]
    omega
  | flush callbacks reader heq =>
    rw [heq]
    exact hflush { s with callbacks } ⟨hacc.blocks, hacc.reads⟩ (Nat.le_of_lt hlt) _ ⟨rfl, rfl, rfl,
      rfl, rfl, rfl⟩

end Sender

theorem reconciled_of_reach {rs : ReedSolomon} {cfg : Config} {ok : Session → SessionEvent → Prop}
    {s : Session} (hr : Reach (session rs cfg) ok s) : s.tx.Reconciled cfg := by
  have hnew : (newSender cfg).Reconciled cfg :=
    ⟨Sender.account_new cfg, Nat.lt_of_lt_of_le Nat.zero_lt_one (Nat.le_max_right _ _)⟩
  exact @turn_invariant rs cfg (newSession cfg) s (Sender.Reconciled cfg) hnew
    (fun _ _ h => h.turn) ok hr

/-! ## Due flushes -/

namespace Shaper

theorem stopped_enqueueMany (s : Shaper) (packets : List Bytes) :
    (s.enqueueMany packets).stopped = s.stopped := by
  unfold enqueueMany
  split <;> rfl

theorem stopped_foldl_enqueue (packets : List Bytes) :
    ∀ s : Shaper, (packets.foldl enqueue s).stopped = s.stopped := by
  induction packets with
  | nil =>
    intro s
    rfl
  | cons packet packets ih =>
    intro s
    rw [List.foldl_cons, ih]
    unfold enqueue
    split <;> rfl

end Shaper

namespace Sender

variable {rs : ReedSolomon} {cfg : Config} {s : Sender}

/-- What is pending has a running timer, or a callback that waits for the lock. -/
def Due (s : Sender) : Prop := s.pendingData ≠ [] → s.blockTimer = .armed ∨ 0 < s.callbacks

theorem flush_due : (s.flushPendingBlockLocked rs cfg).Due := by
  intro hne
  exact absurd (flush_pendingData rs cfg s) hne

theorem flush_stopped : (s.flushPendingBlockLocked rs cfg).shaper.stopped = s.shaper.stopped := by
  by_cases hne : s.pendingData = []
  · rw [flush_of_empty hne]
  · cases henc : Fec.encode rs cfg.fecK s.curM (s.paddedPending cfg) with
    | none => rw [flush_fail hne henc]
    | some parityShards =>
      rw [flush_eq hne henc]
      exact Shaper.stopped_enqueueMany _ _

/-- The first read of a block starts its timer; a later one leaves timer and callbacks alone. -/
theorem readTCP_due (h : s.Due) (data : Bytes) :
    (s.readTCP rs cfg data).Due ∧ (s.readTCP rs cfg data).shaper.stopped = s.shaper.stopped := by
  unfold readTCP
  simp only [List.length_append, List.length_singleton]
  by_cases hfirst : s.pendingData.length + 1 = 1
  · rw [if_pos hfirst]
    split
    · exact ⟨flush_due, flush_stopped⟩
    · exact ⟨fun _ => Or.inl rfl, rfl⟩
  · rw [if_neg hfirst]
    have hne : s.pendingData ≠ [] := by
      intro hnil
      simp [hnil] at hfirst
    split
    · exact ⟨flush_due, flush_stopped⟩
    · exact ⟨fun _ => h hne, rfl⟩

theorem Stepped.due {done : Bool} {e : TxEvent} {eff : Effect Sender}
    (hs : Stepped rs cfg done s e eff) (h : s.Due) :
    eff.state.Due ∧ eff.state.shaper.stopped = s.shaper.stopped := by
  cases hs with
  | read data hr hne hle => exact readTCP_due h data
  | finFlush hr hd => exact ⟨@flush_due rs cfg s, @flush_stopped rs cfg s⟩
  | timerRun hc => exact ⟨flush_due, flush_stopped⟩
  | timerFire ht => exact ⟨fun _ => Or.inr (Nat.succ_pos _), rfl⟩
  | looseFire ht => exact ⟨fun _ => Or.inr (Nat.succ_pos _), rfl⟩
  | shaper e shaper run out hrun => exact ⟨h, (Shaper.ran_of_runStep hrun).stopped⟩
  | _ => exact ⟨h, rfl⟩

end Sender

namespace Session

variable {rs : ReedSolomon} {cfg : Config} {s s' : Session}

/-- As long as the session is not cancelled its shaper takes packets and its pending reads are
due. -/
def Live (s : Session) : Prop := s.cancelled = false → s.tx.shaper.stopped = false ∧ s.tx.Due

theorem live_new (cfg : Config) : (newSession cfg).Live := by
  intro _
  refine ⟨rfl, ?_⟩
  intro hne
  exact absurd rfl hne

theorem live_close (s : Session) : s.close.Live := by
  intro hc
  cases hc

theorem Live.handle (h : s.Live) (p : Packet) : (s.handle rs cfg p).Live := by
  unfold Session.handle
  split
  · exact h
  · split <;> exact h
  · obtain ⟨m, ok, blocks, size, interval, heq, -⟩ := Sender.handleLQR_eq cfg s.tx p
    rw [heq]
    exact h
  · exact h
  · exact live_close s
  · exact h

theorem Live.finishHandler (h : s.Live) : s.finishHandler.Live := by
  unfold Session.finishHandler
  split
  · exact h
  · intro hc
    obtain ⟨hstop, hdue⟩ := h hc
    exact ⟨(Shaper.stopped_foldl_enqueue _ _).trans hstop, hdue⟩
  · simp only
    split
    · exact live_close _
    · exact h

theorem Live.step (h : s.Live) {e : SessionEvent} {out : List Bytes}
    (hs : s.step rs cfg e = some (s', out)) :
    s'.Live := by
  cases stepped_of_step hs with
  | tx e eff hl hclose heff =>
    intro hc
    obtain ⟨hstop, hdue⟩ := h hc
    obtain ⟨hdue', hstop'⟩ := heff.due hdue
    exact ⟨hstop'.trans hstop, hdue'⟩
  | txClose e eff hl hclose heff => exact live_close _
  | recv p hd => exact h.handle p
  | finishHandler hd => exact h.finishHandler
  | cancel => exact live_close s
  | _ => exact h

end Session

theorem live_of_reach {rs : ReedSolomon} {cfg : Config} {ok : Session → SessionEvent → Prop}
    {s : Session} (hr : Reach (session rs cfg) ok s) : s.Live :=
  session_run (I := Session.Live) (Session.live_new cfg) (fun _ _ _ _ h _ hs => h.step hs) hr

/-! ## Conservation -/

section Conservation

variable {rs : ReedSolomon} {cfg : Config}

theorem maxPayload_lt (hmtu : 100 ≤ cfg.linkMTU ∧ cfg.linkMTU ≤ 1500) : maxPayload cfg < 65536 := by
  unfold maxPayload
  split <;> omega

/-- What the writer of the peer takes out of framed shards. -/
theorem extract_frames {reads : List Bytes} (h : ∀ x ∈ reads, x.length < 65536) :
    (reads.map frame).flatMap (fun d => extract (some d)) = reads.flatten := by
  induction reads with
  | nil => rfl
  | cons x reads ih =>
    have hx : extract (some (frame x)) = x := by
      simpa using extract_frame (h x List.mem_cons_self) []
    rw [List.map_cons, List.flatMap_cons, List.flatten_cons, hx,
      ih fun y hy => h y (List.mem_cons_of_mem _ hy)]

/-- What the writer of the peer takes out of the data shards of a block. -/
theorem Block.Filled.extract_data {blk : Block} (h : blk.Filled cfg)
    (hmax : maxPayload cfg < 65536) :
    blk.data.flatMap (fun d => extract (some d)) = blk.bytes := by
  have hall : ∀ d ∈ blk.data, extract (some d) = unframe d := by
    intro d hd
    obtain ⟨x, hx, rfl⟩ := h.framed d hd
    rw [unframe_frame]
    simpa using extract_frame (Nat.lt_of_le_of_lt hx hmax) []
  exact List.flatMap_congr hall

theorem Sender.Account.conserved {s : Sender} (h : s.Account cfg) (hmax : maxPayload cfg < 65536) :
    (s.sent.flatMap fun blk => blk.data.flatMap fun d => extract (some d)) ++
      (s.pendingData.flatMap fun d => extract (some d)) = s.tcpIn := by
  obtain ⟨reads, hpend, hreads, htcp⟩ := h.reads
  have hsent : (s.sent.flatMap fun blk => blk.data.flatMap fun d => extract (some d)) =
      s.sent.flatMap Block.bytes :=
    List.flatMap_congr fun blk hblk => (h.blocks blk hblk).extract_data hmax
  have hpending : (s.pendingData.flatMap fun d => extract (some d)) = reads.flatten := by
    rw [hpend]
    exact extract_frames fun x hx => Nat.lt_of_le_of_lt (hreads x hx).2 hmax
  rw [hsent, hpending, htcp]

/-- The packets of a block: `K` of data, which carry its shards, before `m` of parity, one datagram
each. -/
structure Block.Emission (cfg : Config) (b : Nat) (blk : Block)
    (dataPkts parityPkts : List Packet) : Prop where
  packets : blk.packets cfg b = dataPkts ++ parityPkts
  data : dataPkts.length = cfg.fecK ∧ ∀ p ∈ dataPkts, p.groupID = UInt16.ofNat b ∧
    p.isParity = false
  parity : parityPkts.length = blk.m ∧ ∀ p ∈ parityPkts, p.groupID = UInt16.ofNat b ∧
    p.isParity = true
  shards : 1 ≤ cfg.fecK → dataPkts.map Packet.payload = blk.data
  datagrams : cfg.streamID ≤ 0x0FFF →
    ((blk.packets cfg b).flatMap sendPacketDirect).length = cfg.fecK + blk.m

theorem length_flatMap_sendPacketDirect {pkts : List Packet}
    (h : ∀ p ∈ pkts, p.type = .data ∧ p.streamID ≤ 0x0FFF) :
    (pkts.flatMap sendPacketDirect).length = pkts.length := by
  induction pkts with
  | nil => rfl
  | cons p pkts ih =>
    obtain ⟨ht, hid⟩ := h p List.mem_cons_self
    obtain ⟨buf, hbuf⟩ := marshal_data_ok ht hid
    rw [List.flatMap_cons, List.length_append, ih fun q hq => h q (List.mem_cons_of_mem _ hq),
      List.length_cons, sendPacketDirect, hbuf, List.length_singleton, Nat.add_comm]

theorem Block.Filled.emission {blk : Block} (h : blk.Filled cfg) {parityShards : List Bytes}
    (hpar : blk.parity = some parityShards) (b : Nat) :
    ∃ dataPkts parityPkts, blk.Emission cfg b dataPkts parityPkts := by
  have hpkts :
      blk.packets cfg b = dataPackets cfg (UInt16.ofNat b) (UInt8.ofNat (b * cfg.fecK)) blk.data ++
      parityPackets cfg (UInt16.ofNat b) blk.m parityShards := by
    rw [Block.packets, Block.packetsAt, hpar]
  refine ⟨_, _, hpkts, ?_, ?_, ?_, ?_⟩
  · refine ⟨by simp [dataPackets], ?_⟩
    intro p hp
    obtain ⟨i, -, rfl⟩ := List.mem_map.mp hp
    exact ⟨rfl, rfl⟩
  · refine ⟨by simp [parityPackets], ?_⟩
    intro p hp
    obtain ⟨i, -, rfl⟩ := List.mem_map.mp hp
    exact ⟨rfl, rfl⟩
  · intro hone
    have hlen : blk.data.length = cfg.fecK := by rw [h.length_data]; omega
    apply List.ext_getElem
    · simp [dataPackets, hlen]
    · intro i hi hi'
      simp [dataPackets, dataPacket, List.getD_eq_getElem?_getD, hi']
  · intro hid
    rw [length_flatMap_sendPacketDirect, hpkts]
    · simp [dataPackets, parityPackets]
    · intro p hp
      obtain ⟨_, i, -, -, -, heq⟩ := mem_packetsAt hp
      rw [heq]
      exact ⟨rfl, hid⟩

end Conservation

/-- **Sender conservation.** In every state of every run without a failed encoding that is not
cancelled, whatever callers flush and whenever: what the shards of the groups carry,
followed by what is pending, is what was read; the flush of a block takes the next
GroupID and hands its `K` data and `curM` parity packets to the shaper; and what is pending has
a timer that runs or a callback that waits. -/
theorem sender_conserves {rs : ReedSolomon} {cfg : Config}
    (hmtu : 100 ≤ cfg.linkMTU ∧ cfg.linkMTU ≤ 1500) {s : Session}
    (hr : Reach (session rs cfg) (fun _ _ => True) s) (hcoded : Coded s.tx.sent)
    (hrun : s.cancelled = false) :
    (s.tx.sent.flatMap fun blk => blk.data.flatMap fun d => extract (some d)) ++
      (s.tx.pendingData.flatMap fun d => extract (some d)) = s.tx.tcpIn ∧
    (∀ (b : Nat) (blk : Block), s.tx.sent[b]? = some blk →
      ∃ dataPkts parityPkts, blk.Emission cfg b dataPkts parityPkts) ∧
    (∀ e s', (session rs cfg).step s e = some s' → s'.tx.sent ≠ s.tx.sent → Coded s'.tx.sent →
      ∃ blk, s'.tx.sent = s.tx.sent ++ [blk] ∧ blk.m = s.tx.curM ∧
        s'.tx.shaper.queue = s.tx.shaper.queue ++
          (blk.packets cfg s.tx.sent.length).flatMap sendPacketDirect) ∧
    (s.tx.pendingData ≠ [] → s.tx.blockTimer = .armed ∨ 0 < s.tx.callbacks) := by
  have hacc := (reconciled_of_reach hr).1
  have hcount := counted_of_reach hr
  obtain ⟨hstop, hdue⟩ := live_of_reach hr hrun
  refine ⟨hacc.conserved (maxPayload_lt hmtu), ?_, ?_, hdue⟩
  · intro b blk hblk
    have hmem := List.mem_of_getElem? hblk
    obtain ⟨parityShards, hpar⟩ := Option.ne_none_iff_exists'.mp (hcoded blk hmem)
    exact (hacc.blocks blk hmem).emission hpar b
  · intro e s' hs hne hcoded'
    obtain ⟨⟨s', out⟩, hstep, rfl⟩ := Option.map_eq_some_iff.mp hs
    have hturn := Session.step_turn hstep
    obtain ⟨blk, hblk⟩ := hturn.grown hne
    obtain ⟨parityShards, hpar⟩ := Option.ne_none_iff_exists'.mp (hcoded' blk (by rw [hblk]; simp))
    obtain ⟨hm, hshaper⟩ := hturn.enqueued hblk hpar
    refine ⟨blk, hblk, hm, ?_⟩
    rw [hshaper, Shaper.enqueueMany, hstop, Block.packets, Block.packetsAt, hpar, hcount.group,
      hcount.seq_coded hcoded]
    rfl

/-- One block has been flushed, and a read of two bytes after it is pending and due. -/
theorem sender_conserves_small :
    ∃ s, Reach (session reedSolomonTwoOne smallConfig) (fun _ _ => True) s ∧ s.tx.sent.length = 1 ∧
      s.tx.pendingData = [frame [5, 6]] ∧
      (s.tx.sent.flatMap fun blk => blk.data.flatMap fun d => extract (some d)) ++ [5, 6] =
        [7, 9, 5, 6] ∧
      (s.tx.blockTimer = .armed ∨ 0 < s.tx.callbacks) := by
  obtain ⟨s, hr, hlen, hpend, htcp, hcoded, hrun⟩ :
      ∃ s, Reach (session reedSolomonTwoOne smallConfig) (fun _ _ => True) s ∧
        s.tx.sent.length = 1 ∧ s.tx.pendingData = [frame [5, 6]] ∧ s.tx.tcpIn = [7, 9, 5, 6] ∧
        Coded s.tx.sent ∧ s.cancelled = false :=
    Reach.exists_of_runOk _ [.launch, .tx .check, .tx (.read [7]), .tx .check, .tx (.read [9]),
      .tx .check, .tx (.read [5, 6])] (by decide +kernel)
  obtain ⟨hcons, -, -, hdue⟩ := sender_conserves (by decide) hr hcoded hrun
  have hframe : ([frame [5, 6]].flatMap fun d => extract (some d)) = [5, 6] := by decide
  rw [hpend, htcp, hframe] at hcons
  exact ⟨s, hr, hlen, hpend, hcons, hdue (by rw [hpend]; simp)⟩

end TcpPep
