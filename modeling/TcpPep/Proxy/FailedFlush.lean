import TcpPep.Proxy.Conservation

/-!
A flush whose encoding fails.

`flushPendingBlockLocked` takes the GroupID and the pending reads before it calls
`FEC.Encode`. On an error it drops both: the bytes are gone, the GroupID is never sent,
and `nextSeqNum` is not moved on with it.

* `Session.Sourced`: every datagram of a session comes from a block that was encoded;
* `Receiver.StuckAt`: a writer that waits for a group which does not come;
* `failed_flush_harms`: what a failed flush does to every continuation of the run;
* `failed_flush_first`: the first block of a session with more than 256 shards.
-/

namespace TcpPep

open Protocol Fec FiniteMap Events

/-! ## A group that does not come -/

/-- No DATA packet of a group arrives. -/
def OtherGroup (g : UInt16) : SessionEvent → Prop
  | .recv p => p.type = .data → p.groupID ≠ g
  | _ => True

namespace Receiver

variable {rs : ReedSolomon} {cfg : Config} {g : UInt16} {written : Bytes} {r r' : Receiver}

/-- The writer is at group `g`, which is not decoded, and has written `written`. -/
structure StuckAt (g : UInt16) (written : Bytes) (r : Receiver) : Prop where
  next : r.nextWriteGrp = g
  out : r.tcpOut = written
  undecoded : ∀ b, r.rxBlocks.lookup g = some b → b.decoded = false
  outside : r.writer.busy = false

theorem StuckAt.of_same (h : r.StuckAt g written) {t : Table UInt16 RxBlock}
    (hsame : SameCores r.rxBlocks t) {b : RxBlock} (hb : t.lookup g = some b) :
    b.decoded = false := by
  obtain ⟨b₀, hb₀, hcore⟩ := hsame.lookup hb
  rw [(RxBlock.core_fields hcore).2.2.2.1]
  exact h.undecoded b₀ hb₀

theorem StuckAt.move {done closeRecv : Bool} (h : r.StuckAt g written)
    (hm : Move done closeRecv r r') :
    r'.StuckAt g written := by
  have hout := h.outside
  cases hm with
  | timers t cbs naks hsame => exact ⟨h.next, h.out, fun b hb => h.of_same hsame hb, h.outside⟩
  | stay => exact h
  | cancelled hw hd => exact ⟨h.next, h.out, h.undecoded, rfl⟩
  | take hw b hb hdec =>
    rw [current, h.next] at hb
    rw [h.undecoded b hb] at hdec
    cases hdec
  | close hw hd hc hdr => exact ⟨h.next, h.out, h.undecoded, rfl⟩
  | slot i hw b hb hi => simp [hw, Writer.busy] at hout
  | slotsDone i hw b hb hi => simp [hw, Writer.busy] at hout
  | fail i n hw b hb hi hn => simp [hw, Writer.busy] at hout
  | unreported t hw hsame => simp [hw, Writer.busy] at hout
  | reported t naks hw hsame => simp [hw, Writer.busy] at hout
  | advance t hw hsame =>
    rcases hw with hw | hw
    · simp [hw, Writer.busy] at hout
    · simp [hw, Writer.busy] at hout
  | leave why hw => exact ⟨h.next, h.out, h.undecoded, rfl⟩

theorem StuckAt.intake (h : r.StuckAt g written) {p : Packet} (hne : p.groupID ≠ g)
    (hi : Intake rs cfg r p r') :
    r'.StuckAt g written := by
  obtain ⟨top, has, hnote⟩ := r.noteGroup_eq p.groupID
  cases hi with
  | closed hclosed => exact h
  | old hold =>
    rw [hnote]
    exact ⟨h.next, h.out, h.undecoded, h.outside⟩
  | take hnew =>
    rw [hnote]
    refine ⟨h.next, h.out, ?_, h.outside⟩
    intro b hb
    simp only [lookup_insert_eq] at hb
    rw [if_neg (Ne.symm hne)] at hb
    exact h.undecoded b hb

theorem StuckAt.start (h : r.StuckAt g written) : (startInit cfg r).StuckAt g written := by
  unfold startInit
  split
  · refine ⟨h.next, h.out, ?_, h.outside⟩
    intro b hb
    simp only [lookup_insert_eq] at hb
    split at hb
    · cases hb
      rfl
    · exact h.undecoded b hb
  · exact h

end Receiver

/-- **Run lemma.** A writer at a group of which no packet comes writes nothing more. -/
theorem stuckAt_of_reach {rs : ReedSolomon} {cfg : Config} {g : UInt16} {written : Bytes}
    {s s' : Session} (h : s.rx.StuckAt g written)
    (hr : Reach { session rs cfg with init := s } (fun _ e => OtherGroup g e) s') :
    s'.rx.StuckAt g written := by
  refine session_run (I := fun s => s.rx.StuckAt g written) h ?_ hr
  intro s₁ e s₂ out h₁ hok hs
  have hchange := (Session.step_rxChange hs).1
  generalize s₂.rx = r' at hchange ⊢
  cases hchange with
  | same => exact h₁
  | launch hl => exact ⟨h₁.next, h₁.out, h₁.undecoded, rfl⟩
  | start hl => exact h₁.start
  | step ev eff heff => exact h₁.move (Receiver.step_move heff)
  | data p ht => exact h₁.intake (hok ht) (Receiver.handleDataPacket_intake rs cfg s₁.rx p)

/-! ## Where datagrams come from -/

/-- A packet of block number `b` of a history, under whatever SeqNum it was stamped with. -/
def StampedFrom (cfg : Config) (sent : List Block) (b : Nat) (p : Packet) : Prop :=
  ∃ blk q, sent[b]? = some blk ∧ p ∈ blk.packetsAt cfg (UInt16.ofNat b) q

theorem StampedFrom.mono {cfg : Config} {sent sent' : List Block} (h : sent <+: sent') {b : Nat}
    {p : Packet} (hp : StampedFrom cfg sent b p) : StampedFrom cfg sent' b p := by
  obtain ⟨blk, q, hb, hp⟩ := hp
  obtain ⟨rest, rfl⟩ := h
  exact ⟨blk, q, List.getElem?_append_left (List.getElem?_eq_some_iff.mp hb).1 ▸ hb, hp⟩

theorem StampedFrom.ne_failed {cfg : Config} {sent : List Block} {b c : Nat} {p : Packet}
    {blk : Block} (hp : StampedFrom cfg sent b p) (hblk : sent[c]? = some blk)
    (hfail : blk.parity = none) : b ≠ c := by
  rintro rfl
  obtain ⟨blk', q, hb, hmem⟩ := hp
  rw [hblk, Option.some.injEq] at hb
  subst hb
  simp [Block.packetsAt, hfail] at hmem

/-- A datagram of a block, or one that carries no shard. -/
def Traceable (cfg : Config) (sent : List Block) (a : Bytes) : Prop :=
  (∃ b p, StampedFrom cfg sent b p ∧ marshal p = .ok a) ∨ ∃ p : Packet, p.type ≠ .data ∧
    marshal p = .ok a

theorem traceable_control {cfg : Config} {sent : List Block} {p : Packet} (ht : p.type ≠ .data)
    {a : Bytes} (ha : a ∈ sendPacketDirect p) : Traceable cfg sent a :=
  Or.inr ⟨p, ht, mem_sendPacketDirect.mp ha⟩

namespace Sender

variable {rs : ReedSolomon} {cfg : Config} {s s' : Sender}

/-- What the shaper and the cache hold comes from blocks of the history. -/
structure Sourced (cfg : Config) (s : Sender) : Prop where
  queue : ∀ a, a ∈ s.run.held ∨ a ∈ s.shaper.queue → ∃ b p, StampedFrom cfg s.sent b p ∧
    marshal p = .ok a
  cache : ∀ q p, s.harqCache.lookup q = some p → ∃ b, StampedFrom cfg s.sent b p

theorem Sourced.mono (h : s.Sourced cfg) (hsent : s.sent <+: s'.sent) (hrun : s'.run = s.run)
    (hqueue : s'.shaper.queue = s.shaper.queue) (hcache : s'.harqCache = s.harqCache) :
    s'.Sourced cfg := by
  constructor
  · intro a ha
    rw [hrun, hqueue] at ha
    obtain ⟨b, p, hp, hm⟩ := h.queue a ha
    exact ⟨b, p, hp.mono hsent, hm⟩
  · intro q p hp
    rw [hcache] at hp
    obtain ⟨b, hb⟩ := h.cache q p hp
    exact ⟨b, hb.mono hsent⟩

/-- **Step lemma for a flush**, failed or not. -/
theorem Sourced.flush (h : s.Sourced cfg) (hgroup : s.nextGroupID = UInt16.ofNat s.sent.length) :
    (s.flushPendingBlockLocked rs cfg).Sourced cfg := by
  by_cases hne : s.pendingData = []
  · rw [flush_of_empty hne]
    exact h
  · cases henc : Fec.encode rs cfg.fecK s.curM (s.paddedPending cfg) with
    | none =>
      rw [flush_fail hne henc]
      exact h.mono (List.prefix_append _ _) rfl rfl rfl
    | some parityShards =>
      have hnew : ∀ p ∈ (s.nextBlock rs cfg).packetsAt cfg s.nextGroupID s.nextSeqNum,
          StampedFrom cfg (s.sent ++ [s.nextBlock rs cfg]) s.sent.length p := by
        intro p hp
        rw [hgroup] at hp
        exact ⟨s.nextBlock rs cfg, s.nextSeqNum, by simp, hp⟩
      have hold := List.prefix_append s.sent [s.nextBlock rs cfg]
      rw [flush_eq hne henc]
      constructor
      · intro a ha
        have hcases : (a ∈ s.run.held ∨ a ∈ s.shaper.queue) ∨ a ∈ s.nextDatagrams rs cfg := by
          rcases ha with ha | ha
          · exact Or.inl (Or.inl ha)
          · exact (Shaper.mem_enqueueMany ha).imp_left Or.inr
        rcases hcases with ha | ha
        · obtain ⟨b, p, hp, hm⟩ := h.queue a ha
          exact ⟨b, p, hp.mono hold, hm⟩
        · obtain ⟨p, hp, ha⟩ := List.mem_flatMap.mp ha
          exact ⟨_, p, hnew p hp, mem_sendPacketDirect.mp ha⟩
      · intro q p hp
        rcases mem_or_lookup_of_lookup_foldl_insert Packet.seqNum hp with hp | hp
        · refine ⟨_, hnew p ?_⟩
          have hpar : (s.nextBlock rs cfg).parity = some parityShards := henc
          rw [Block.packetsAt, hpar]
          exact List.mem_append_left _ hp
        · obtain ⟨b, hb⟩ := h.cache q p hp
          exact ⟨b, hb.mono hold⟩

theorem Sourced.readTCP (h : s.Sourced cfg) (hgroup : s.nextGroupID = UInt16.ofNat s.sent.length)
    (data : Bytes) :
    (s.readTCP rs cfg data).Sourced cfg := by
  obtain ⟨timer, loose, heq⟩ := readTCP_eq rs cfg s data
  rw [heq]
  split
  · exact h.mono (List.prefix_refl _) rfl rfl rfl
  · have happ : (s.append data .unset loose).Sourced cfg := h.mono (List.prefix_refl _) rfl rfl rfl
    exact happ.flush hgroup

theorem Stepped.sourced {done : Bool} {e : TxEvent} {eff : Effect Sender}
    (hs : Stepped rs cfg done s e eff) (h : s.Sourced cfg)
    (hgroup : s.nextGroupID = UInt16.ofNat s.sent.length) :
    eff.state.Sourced cfg ∧ ∀ a ∈ eff.out, Traceable cfg eff.state.sent a := by
  cases hs with
  | read data hr hne hle =>
    exact ⟨(@Sourced.readTCP rs cfg s h hgroup data).mono (List.prefix_refl _) rfl rfl rfl, by simp⟩
  | finFlush hr hd =>
    exact ⟨(@Sourced.flush rs cfg s h hgroup).mono (List.prefix_refl _) rfl rfl rfl, by simp⟩
  | timerRun hc =>
    have hcb : Sourced cfg { s with callbacks := s.callbacks - 1 } :=
      h.mono (List.prefix_refl _) rfl rfl rfl
    exact ⟨hcb.flush hgroup, by simp⟩
  | readError hr =>
    refine ⟨h.mono (List.prefix_refl _) rfl rfl rfl, fun a ha => ?_⟩
    obtain ⟨p, hp, ha⟩ := List.mem_flatMap.mp ha
    rw [(List.mem_replicate.mp hp).2] at ha
    exact traceable_control (by simp [resetPacket]) ha
  | shaper e shaper run out hrun =>
    constructor
    · exact ⟨fun a ha => h.queue a (Shaper.runStep_mem hrun a (Or.inr ha)), h.cache⟩
    · exact fun a ha => Or.inl (h.queue a (Shaper.runStep_mem hrun a (Or.inl ha)))
  | closeSend hc =>
    exact ⟨h.mono (List.prefix_refl _) rfl rfl rfl,
      fun a => traceable_control (by simp [closePacket])⟩
  | closeAgain hc hr => exact ⟨h, fun a => traceable_control (by simp [closePacket])⟩
  | _ => exact ⟨h.mono (List.prefix_refl _) rfl rfl rfl, by simp⟩

end Sender

namespace Session

variable {rs : ReedSolomon} {cfg : Config} {s s' : Session}

/-- Every packet a session holds comes from a block of its history. -/
structure Sourced (cfg : Config) (s : Session) : Prop where
  tx : s.tx.Sourced cfg
  retransmit : ∀ p, s.demux = .retransmit p → ∃ b, StampedFrom cfg s.tx.sent b p

theorem sourced_new (cfg : Config) : (newSession cfg).Sourced cfg where
  tx := by
    constructor
    · intro a ha
      simp [newSession, newSender, newShaper, RunState.held] at ha
    · intro q p hp
      simp [newSession, newSender] at hp
  retransmit := by simp [newSession]

theorem Sourced.close (h : s.Sourced cfg) : s.close.Sourced cfg :=
  ⟨h.tx.mono (List.prefix_refl _) rfl rfl rfl, h.retransmit⟩

theorem Sourced.handle (h : s.Sourced cfg) (p : Packet) : (s.handle rs cfg p).Sourced cfg := by
  unfold Session.handle
  split
  · exact ⟨h.tx, h.retransmit⟩
  · split
    · rename_i cached hcached
      refine ⟨h.tx, ?_⟩
      intro p' hp'
      cases hp'
      exact h.tx.cache _ _ hcached
    · exact h
  · obtain ⟨m, ok, blocks, size, interval, heq, -⟩ := Sender.handleLQR_eq cfg s.tx p
    rw [heq]
    exact ⟨h.tx.mono (List.prefix_refl _) rfl rfl rfl, h.retransmit⟩
  · exact ⟨h.tx.mono (List.prefix_refl _) rfl rfl rfl, by simp⟩
  · exact h.close
  · exact h

theorem Sourced.finishHandler (h : s.Sourced cfg) : s.finishHandler.Sourced cfg := by
  unfold Session.finishHandler
  split
  · exact h
  · rename_i p hp
    obtain ⟨b, hb⟩ := h.retransmit p hp
    refine ⟨⟨?_, h.tx.cache⟩, by simp⟩
    intro a ha
    rcases ha with ha | ha
    · exact h.tx.queue a (Or.inl ha)
    · rcases Shaper.mem_foldl_enqueue ha with ha | ha
      · exact h.tx.queue a (Or.inr ha)
      · exact ⟨b, p, hb, mem_sendPacketDirect.mp ha⟩
  · have hidle : Sourced cfg { s with demux := .idle } := ⟨h.tx, by simp⟩
    simp only
    split
    · exact hidle.close
    · exact hidle

theorem Sourced.step (h : s.Sourced cfg) (hcount : s.tx.Counted cfg) {e : SessionEvent}
    {out : List Bytes} (hs : s.step rs cfg e = some (s', out)) :
    s'.Sourced cfg ∧ ∀ a ∈ out, Traceable cfg s'.tx.sent a := by
  have hkeep : ∀ p, s.demux = .retransmit p → ∃ b, StampedFrom cfg s'.tx.sent b p := by
    intro p hp
    obtain ⟨b, hb⟩ := h.retransmit p hp
    exact ⟨b, hb.mono (step_turn hs).history⟩
  cases stepped_of_step hs with
  | launch hl => exact ⟨⟨h.tx.mono (List.prefix_refl _) rfl rfl rfl, h.retransmit⟩, by simp⟩
  | start hl hst => exact ⟨⟨h.tx, h.retransmit⟩, by simp⟩
  | tx e eff hl hclose heff =>
    obtain ⟨htx, hout⟩ := heff.sourced h.tx hcount.group
    exact ⟨⟨htx, hkeep⟩, hout⟩
  | txClose e eff hl hclose heff =>
    obtain ⟨htx, hout⟩ := heff.sourced h.tx hcount.group
    exact ⟨Sourced.close ⟨htx, hkeep⟩, hout⟩
  | rx e eff heff =>
    refine ⟨⟨h.tx, h.retransmit⟩, ?_⟩
    intro a ha
    rcases Receiver.step_out heff ha with ⟨g, losses, ha⟩ | ⟨q, ha⟩
    · exact Or.inr ⟨_, by simp [Receiver.lqrPacket], ha⟩
    · exact Or.inr ⟨_, by simp [Receiver.nakPacket], ha⟩
  | recv p hd => exact ⟨h.handle p, by simp⟩
  | finishHandler hd => exact ⟨h.finishHandler, by simp⟩
  | cancel => exact ⟨h.close, by simp⟩

end Session

theorem sourced_of_reach {rs : ReedSolomon} {cfg : Config} {ok : Session → SessionEvent → Prop}
    {s : Session} (hr : Reach (session rs cfg) ok s) : s.Sourced cfg := by
  induction hr with
  | init => exact Session.sourced_new cfg
  | step hr hok hs ih =>
    obtain ⟨⟨_, out⟩, hstep, rfl⟩ := Option.map_eq_some_iff.mp hs
    exact (ih.step (counted_of_reach hr) hstep).1

/-! ## What is lost -/

/-- The number of flushes that failed. -/
def failedFlushes (sent : List Block) : Nat := sent.countP fun blk => blk.parity.isNone

/-- The bytes of the blocks that were sent. -/
def transmittedBytes (sent : List Block) : Bytes :=
  (sent.filter fun blk => blk.parity.isSome).flatMap Block.bytes

theorem transmitted_add_failedFlushes (sent : List Block) :
    transmitted sent + failedFlushes sent = sent.length := by
  induction sent with
  | nil => rfl
  | cons blk sent ih =>
    cases hp : blk.parity with
    | none => simp [transmitted, failedFlushes, hp] at ih ⊢; omega
    | some parityShards => simp [transmitted, failedFlushes, hp] at ih ⊢; omega

/-- The bytes of a failed block are missing among those sent. -/
theorem length_transmittedBytes_add {sent : List Block} {blk : Block} (hmem : blk ∈ sent)
    (hfail : blk.parity = none) :
    (transmittedBytes sent).length + blk.bytes.length ≤ (sent.flatMap Block.bytes).length := by
  have hle : ∀ l : List Block, (transmittedBytes l).length ≤ (l.flatMap Block.bytes).length := by
    intro l
    exact (List.filter_sublist.flatMap Block.bytes).length_le
  induction sent with
  | nil => cases hmem
  | cons c sent ih =>
    rw [List.flatMap_cons, List.length_append]
    rcases List.mem_cons.mp hmem with rfl | hmem
    · have hskip : transmittedBytes (blk :: sent) = transmittedBytes sent := by
        simp [transmittedBytes, hfail]
      have := hle sent
      rw [hskip]
      omega
    · have := ih hmem
      cases hp : c.parity with
      | none =>
        have hskip : transmittedBytes (c :: sent) = transmittedBytes sent := by
          simp [transmittedBytes, hp]
        rw [hskip]
        omega
      | some parityShards =>
        have hkeep : transmittedBytes (c :: sent) = c.bytes ++ transmittedBytes sent := by
          simp [transmittedBytes, hp]
        rw [hkeep, List.length_append]
        omega

/-- The two counters agree exactly when the failed blocks make up a multiple of 256 packets. -/
theorem Sender.Counted.seq_agrees_iff {cfg : Config} {s : Sender} (h : s.Counted cfg) :
    s.nextSeqNum = UInt8.ofNat (s.nextGroupID.toNat * cfg.fecK) ↔
    256 ∣ failedFlushes s.sent * cfg.fecK := by
  have hmod : s.sent.length % 65536 * cfg.fecK % 256 = s.sent.length * cfg.fecK % 256 := by
    rw [Nat.mul_mod, Nat.mod_mod_of_dvd _ (by decide : 256 ∣ 65536), ← Nat.mul_mod]
  have hlen : s.sent.length * cfg.fecK = transmitted s.sent * cfg.fecK +
      failedFlushes s.sent * cfg.fecK := by
    rw [← transmitted_add_failedFlushes, Nat.add_mul]
  rw [h.seq, h.group, UInt16.toNat_ofNat', ofNat8_eq_iff, hmod, hlen]
  omega

/-- What a failed flush does at once: nothing is sent, and only the GroupID moves on. -/
theorem Sender.Turn.failed {rs : ReedSolomon} {cfg : Config} {s s' : Sender} {blk : Block}
    (h : Turn rs cfg s s') (hsent : s'.sent = s.sent ++ [blk]) (hfail : blk.parity = none) :
    s'.pendingData = [] ∧ s'.shaper = s.shaper ∧ s'.nextGroupID = s.nextGroupID + 1 ∧
    s'.nextSeqNum = s.nextSeqNum := by
  obtain ⟨t, hne, rfl, hgroup, hseq, -, hshaper, hs', hsame⟩ := h.flushed hsent
  rw [flush_fail hne hfail] at hs' hsame
  exact ⟨hsame.pending, hs'.trans hshaper, hsame.group.trans (by rw [← hgroup]),
    hsame.seq.trans hseq⟩

/-- **A failed flush does harm, always.** In every state, when the encoding of a flush fails, and
for every continuation: the bytes of the block are neither sent nor pending any more; no
datagram of its block number is ever sent, though the number is taken; `nextSeqNum` is
`nextGroupID * K` again only once the failed blocks make up a multiple of 256 packets; and a
peer whose writer has come to that group writes nothing more as long as no packet
with the GroupID comes. -/
theorem failed_flush_harms {rs : ReedSolomon} {cfg : Config} {s s' : Session} {e : SessionEvent}
    (hr : Reach (session rs cfg) (fun _ _ => True) s) (hs : (session rs cfg).step s e = some s')
    {blk : Block} (hflush : s'.tx.sent = s.tx.sent ++ [blk]) (hfail : blk.parity = none) :
    (s'.tx.pendingData = [] ∧ s'.tx.shaper = s.tx.shaper ∧
      s'.tx.nextGroupID = s.tx.nextGroupID + 1 ∧ s'.tx.nextSeqNum = s.tx.nextSeqNum) ∧
    (∀ t, Reach { session rs cfg with init := s' } (fun _ _ => True) t →
      (transmittedBytes t.tx.sent ++ t.tx.pendingData.flatMap unframe).length < t.tx.tcpIn.length ∧
      (s.tx.sent.length < t.tx.sent.length ∧ ∀ e t' out, t.step rs cfg e = some (t', out) →
        ∀ a ∈ out, (∃ b p, b ≠ s.tx.sent.length ∧ StampedFrom cfg t'.tx.sent b p ∧
          marshal p = .ok a) ∨ ∃ p : Packet, p.type ≠ .data ∧ marshal p = .ok a) ∧
      (t.tx.nextSeqNum = UInt8.ofNat (t.tx.nextGroupID.toNat * cfg.fecK) ↔
        256 ∣ failedFlushes t.tx.sent * cfg.fecK)) ∧
    ∀ rs' rcfg r r' written, r.rx.StuckAt (UInt16.ofNat s.tx.sent.length) written →
      Reach { session rs' rcfg with init := r }
      (fun _ e => OtherGroup (UInt16.ofNat s.tx.sent.length) e) r' →
      r'.rx.StuckAt (UInt16.ofNat s.tx.sent.length) written := by
  obtain ⟨⟨_, out⟩, hstep, rfl⟩ := Option.map_eq_some_iff.mp hs
  refine ⟨(Session.step_turn hstep).failed hflush hfail, ?_,
    fun _ _ _ _ _ h hr' => stuckAt_of_reach h hr'⟩
  intro t ht
  have hreach := (hr.step trivial hs).trans ht
  obtain ⟨rest, hrest⟩ := history_of_reach ht
  have hblk : t.tx.sent[s.tx.sent.length]? = some blk := by
    rw [← hrest, hflush]
    simp
  have hacc := (reconciled_of_reach hreach).1
  have hcount := counted_of_reach hreach
  refine ⟨?_, ⟨(List.getElem?_eq_some_iff.mp hblk).1, ?_⟩, hcount.seq_agrees_iff⟩
  · obtain ⟨reads, hpend, -, htcp⟩ := hacc.reads
    have hbytes := List.length_pos_iff.mpr (hacc.blocks blk (List.mem_of_getElem? hblk)).bytes_ne
    have hlost := length_transmittedBytes_add (List.mem_of_getElem? hblk) hfail
    have hreads : t.tx.pendingData.flatMap unframe = reads.flatten := by
      rw [hpend, List.flatMap_map]
      simp [List.flatMap_def]
    rw [htcp, hreads, List.length_append, List.length_append]
    omega
  · intro e t' out hstep' a ha
    have hlater : t'.tx.sent[s.tx.sent.length]? = some blk := by
      obtain ⟨rest', hrest'⟩ := (Session.step_turn hstep').history
      rw [← hrest', List.getElem?_append_left (List.getElem?_eq_some_iff.mp hblk).1, hblk]
    rcases ((sourced_of_reach hreach).step hcount hstep').2 a ha with ⟨b, p, hp, hm⟩ | hcontrol
    · exact Or.inl ⟨b, p, hp.ne_failed hlater hfail, hp, hm⟩
    · exact Or.inr hcontrol

/-- What `reedsolomon.New` gives for more than 256 shards: an encoder that takes only shards whose
size is a multiple of 64. What it encodes does not matter here. -/
def leopardSizes : ReedSolomon where
  new k m := some
    { encode := fun shards =>
        if 256 < k + m ∧ (shards.headD []).length % 64 ≠ 0 then none else some shards
      reconstruct := fun _ => none }

/-- Two data shards and 255 parity shards. -/
def wideConfig : Config := { streamID := 1, linkMTU := 100, bandwidth := 0, fecK := 2, fecM := 255 }

/-- Two reads of one byte fill block 0. -/
def shortReads : List SessionEvent := [.launch, .tx .check, .tx (.read [7]), .tx .check]

theorem failed_flush_harms_wide :
    ∃ s s', Reach (session leopardSizes wideConfig) (fun _ _ => True) s ∧
      (session leopardSizes wideConfig).step s (.tx (.read [9])) = some s' ∧ s'.tx.tcpIn = [7, 9] ∧
      (transmittedBytes s'.tx.sent ++ s'.tx.pendingData.flatMap unframe).length < 2 ∧
      s'.tx.shaper = s.tx.shaper ∧ s'.tx.nextGroupID = s.tx.nextGroupID + 1 ∧
      s'.tx.nextSeqNum = s.tx.nextSeqNum := by
  obtain ⟨s, s', hr, hs, hnil, hsent, htcp⟩ : ∃ s s',
      Reach (session leopardSizes wideConfig) (fun _ _ => True) s ∧
      (session leopardSizes wideConfig).step s (.tx (.read [9])) = some s' ∧
      s.tx.sent = [] ∧ s'.tx.sent = [⟨[frame [7], frame [9]], 255, none⟩] ∧ s'.tx.tcpIn = [7, 9] :=
    Reach.exists_step_of_runOk _ shortReads _ (by decide +kernel)
  obtain ⟨⟨-, hshaper, hgroup, hseq⟩, hlater, -⟩ :=
    failed_flush_harms hr hs (by rw [hnil, hsent]; rfl) rfl
  have hlost := (hlater s' .init).1
  rw [htcp] at hlost
  exact ⟨s, s', hr, hs, htcp, hlost, hshaper, hgroup, hseq⟩

/-- **Group 0 is never sent.** With `K = 2` and `M = 255` the package rejects the shards of the
first block, which have three bytes. The two bytes are gone, and nothing is queued; the next block,
with shards of 64 bytes, goes out under GroupID 1 with sequence numbers from 0, where the receiver
computes 2. -/
theorem failed_flush_first :
    ∃ s s', Reach (session leopardSizes wideConfig) (fun _ _ => True) s ∧
      (session leopardSizes wideConfig).step s (.tx (.read (List.replicate 62 5))) = some s' ∧
      s.tx.tcpIn = [7, 9] ++ List.replicate 62 5 ∧ s.tx.sent.map Block.parity = [none] ∧
      s.tx.pendingData = [frame (List.replicate 62 5)] ∧ s.tx.shaper.queue = [] ∧
      s.tx.nextGroupID = 1 ∧ s.tx.nextSeqNum = 0 ∧
      (s'.tx.shaper.queue.take 2).map
      (fun a => (unmarshal a).toOption.map fun p => (p.groupID, p.seqNum)) =
        [some (1, 0), some (1, 1)] ∧
      (newRxBlock wideConfig 1).seqNums = [2, 3] :=
  Reach.exists_step_of_runOk _ (shortReads ++ [.tx (.read [9]), .tx .check,
    .tx (.read (List.replicate 62 5)), .tx .check])
    _ (by decide +kernel)

end TcpPep
