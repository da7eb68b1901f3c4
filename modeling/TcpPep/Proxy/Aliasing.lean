import TcpPep.Proxy.Link

/-!
GroupIDs that wrap around while the receiver waits.

Nothing holds the sender back when the receiver is stuck at a block, so after
65536 more flushes a packet of another block enters the same receive block.

* `blocks_unmixed`: while every DATA packet arrives less than a turn ahead of the
  writer, a decoded receive block holds the shards of one sender block;
* `quiet_rounds`: the sender flushes any number of blocks, all of which the network
  drops, and the receiver does not change;
* `blocks_mixed`: a receive block decoded from the shards of blocks 0 and 65536.
-/

namespace TcpPep

open Protocol Fec FiniteMap ErasureCode Events

/-- The network keeps the order and duplicates nothing. -/
def Fifo : LinkEvent → Prop
  | .deliver _ i again => i = 0 ∧ again = false
  | _ => True

instance (e : LinkEvent) : Decidable (Fifo e) :=
  match e with
  | .deliver _ i again => inferInstanceAs (Decidable (i = 0 ∧ again = false))
  | .act _ _ => .isTrue trivial
  | .drop _ _ => .isTrue trivial

/-- Slot `i` of a receive block holds shard `i` of the sender block, as it was sent or
padded by the decoder. -/
def ShardsOf {k n : Nat} (code : Code UInt8 k n) (blk : Block) (b : RxBlock) : Prop :=
  ∀ i p, b.slot i = some p → p = sentShard code blk.data i ∨ p = codeShard code blk.data i

/-- **Unmixed blocks.** A decoded block has the shards of one flushed block, with its GroupID. -/
theorem blocks_unmixed {rs : ReedSolomon} {lc : LinkConfig} {n : Nat} {code : Code UInt8 lc.fecK n}
    (himpl : Implements rs code) (hv : ∀ x, (lc.side x).Valid n) {s : Link}
    (hr : Reach (link rs lc) (Arrivals lc InTurn) s) (x : Side) {g : UInt16} {b : RxBlock}
    (hb : (s.session x.other).rx.rxBlocks.lookup g = some b) (hd : b.decoded = true) :
    ∃ j blk, (s.session x).tx.sent[j]? = some blk ∧ UInt16.ofNat j = g ∧ ShardsOf code blk b := by
  have hinv := linkInv_of_reach himpl hv (fun _ _ h => h) hr
  obtain ⟨blk, hblk, R, -, hhold⟩ := ((hinv.rx x).entries g b hb).of_decoded (hv x).one_le hd
  exact ⟨_, blk, hblk, ofNat_blockOf _ g, hhold.slots⟩

/-- The first block arrives but for its data packet. -/
def decodedRun : List LinkEvent :=
  bothStart ++ readAndFlush [7, 9] ++ sendBlock ++
    [.drop .right 0, .deliver .right 0 false, .deliver .right 0 false]

theorem blocks_unmixed_small :
    ∃ s b, Reach (link reedSolomonTwoOne smallLink) (Arrivals smallLink InTurn) s ∧
      (s.session .right).rx.rxBlocks.lookup 0 = some b ∧ b.decoded = true ∧
      ∃ j blk, (s.session .left).tx.sent[j]? = some blk ∧ UInt16.ofNat j = 0 ∧
      ShardsOf twoOne blk b := by
  obtain ⟨s, hr, hdec⟩ : ∃ s,
      Reach (link reedSolomonTwoOne smallLink) (Arrivals smallLink InTurn) s ∧
      ((s.session .right).rx.rxBlocks.lookup 0).map RxBlock.decoded = some true :=
    Reach.exists_of_runOk _ decodedRun (by decide +kernel)
  obtain ⟨b, hb, hd⟩ := Option.map_eq_some_iff.mp hdec
  exact ⟨s, b, hr, hb, hd, @blocks_unmixed reedSolomonTwoOne smallLink 3 twoOne implements_twoOne
    (smallLink_documented.valid (by decide)) s hr .left 0 b hb hd⟩

/-! ## Runs of one sending half -/

/-- A run of the sending half alone, with what it sends. -/
def Sender.runTx (rs : ReedSolomon) (cfg : Config) :
    Sender → List TxEvent → Option (Sender × List Bytes)
  | s, [] => some (s, [])
  | s, e :: es =>
    match s.step rs cfg false e with
    | some ⟨s', out, false⟩ => (Sender.runTx rs cfg s' es).map fun r => (r.1, out ++ r.2)
    | _ => none

/-- The link after a run of the sending half at `x`. -/
def Link.afterTx (s : Link) (x : Side) (tx : Sender) (out : List Bytes) : Link :=
  { session := Function.update s.session x { s.session x with tx }
    net := Function.update s.net x.other (s.net x.other ++ out) }

section Runs

variable {rs : ReedSolomon} {lc : LinkConfig} {ok : Link → LinkEvent → Prop}

theorem reach_runTx (hok : ∀ s x e, ok s (.act x e)) {s : Link} {x : Side}
    (hr : Reach (link rs lc) ok s) (hl : (s.session x).launched = true)
    (hc : (s.session x).cancelled = false) (es : List TxEvent) {tx : Sender} {out : List Bytes}
    (hrun : (s.session x).tx.runTx rs (lc.side x) es = some (tx, out)) :
    Reach (link rs lc) ok (s.afterTx x tx out) := by
  induction es generalizing s out with
  | nil =>
    simp only [Sender.runTx, Option.some.injEq, Prod.mk.injEq] at hrun
    obtain ⟨rfl, rfl⟩ := hrun
    have hs : s.afterTx x (s.session x).tx [] = s := by
      simp [Link.afterTx]
    rwa [hs]
  | cons e es ih =>
    simp only [Sender.runTx] at hrun
    split at hrun
    · rename_i s₁ out₁ hstep
      simp only [Option.map_eq_some_iff, Prod.mk.injEq, Prod.exists] at hrun
      obtain ⟨tx', out', hrest, rfl, rfl⟩ := hrun
      have hone : (link rs lc).step s (.act x (.tx e)) = some (s.afterTx x s₁ out₁) := by
        simp [link, Link.step, Link.feed, Session.step, Session.applyTx, Link.afterTx, hl, hc,
          hstep]
      have hnext := ih (s := s.afterTx x s₁ out₁) (.step hr (hok s x _) hone)
        (by simpa [Link.afterTx] using hl) (by simpa [Link.afterTx] using hc)
        (by simpa [Link.afterTx] using hrest)
      have heq : (s.afterTx x s₁ out₁).afterTx x tx' out' = s.afterTx x tx' (out₁ ++ out') := by
        simp [Link.afterTx]
      rwa [heq] at hnext
    · cases hrun

theorem reach_dropAll (hok : ∀ s y i, ok s (.drop y i)) {s : Link} {y : Side}
    (hr : Reach (link rs lc) ok s) :
    Reach (link rs lc) ok { s with net := Function.update s.net y [] } := by
  generalize hnet : s.net y = l
  induction l generalizing s with
  | nil =>
    have hs : Function.update s.net y [] = s.net := by
      rw [← hnet, Function.update_eq_self]
    rwa [hs]
  | cons a l ih =>
    have hone : (link rs lc).step s (.drop y 0) = some (s.remove y 0) := by
      simp [link, Link.step, hnet]
    have hnext := ih (s := s.remove y 0) (.step hr (hok s y 0) hone) (by simp [Link.remove, hnet])
    simpa [Link.remove] using hnext

end Runs

/-! ## Blocks that are flushed and lost -/

/-- A sending half between two blocks, over a link without shaping. -/
structure Sender.Idle (s : Sender) : Prop where
  reader : s.reader = .check
  pending : s.pendingData = []
  curM : s.curM = 1
  queue : s.shaper.queue = []
  running : s.shaper.stopped = false
  unshaped : s.shaper.burstInterval = 0
  run : s.run = .wait
  group : s.nextGroupID = UInt16.ofNat s.sent.length
  seq : s.nextSeqNum = UInt8.ofNat (s.sent.length * 2)

instance (s : Sender) : Decidable s.Idle :=
  decidable_of_iff (s.reader = .check ∧ s.pendingData = [] ∧ s.curM = 1 ∧ s.shaper.queue = [] ∧
      s.shaper.stopped = false ∧ s.shaper.burstInterval = 0 ∧ s.run = .wait ∧
      s.nextGroupID = UInt16.ofNat s.sent.length ∧ s.nextSeqNum = UInt8.ofNat (s.sent.length * 2))
    ⟨fun ⟨h1, h2, h3, h4, h5, h6, h7, h8, h9⟩ => ⟨h1, h2, h3, h4, h5, h6, h7, h8, h9⟩,
      fun h => ⟨h.reader, h.pending, h.curM, h.queue, h.running, h.unshaped, h.run, h.group, h.seq⟩⟩

/-- The block of two one-byte reads. -/
def pairBlock (a b : UInt8) : Block :=
  ⟨[frame [a], frame [b]], 1, some [List.zipWith parityByte (frame [a]) (frame [b])]⟩

/-- Two reads, and the shaper sends the three packets of their block. -/
def pairRun (a b : UInt8) : List TxEvent :=
  [.check, .read [a], .check, .read [b], .shaper .poll, .shaper .take,
    .shaper .send, .shaper .send, .shaper .send, .shaper .send]

/-- The datagrams of such a block. -/
def pairDatagrams (grpID : UInt16) (seqNum : UInt8) (a b : UInt8) : List Bytes :=
  ((pairBlock a b).packetsAt (smallLink.side .left) grpID seqNum).flatMap sendPacketDirect

theorem encode_pair (a b : UInt8) :
    Fec.encode reedSolomonTwoOne 2 1 [frame [a], frame [b]] =
      some [List.zipWith parityByte (frame [a]) (frame [b])] := rfl

/-- Two reads flush a block into an empty shaper. -/
theorem Sender.Idle.reads {s : Sender} (h : s.Idle) (a b : UInt8) :
    ∃ s', s.runTx reedSolomonTwoOne (smallLink.side .left)
      [.check, .read [a], .check, .read [b]] = some (s', []) ∧ s'.reader = .check ∧
      s'.pendingData = [] ∧ s'.curM = 1 ∧ s'.run = .wait ∧ s'.nextGroupID = s.nextGroupID + 1 ∧
      s'.nextSeqNum = s.nextSeqNum + 2 ∧
      s'.shaper = { s.shaper with queue := pairDatagrams s.nextGroupID s.nextSeqNum a b } ∧
      s'.sent = s.sent ++ [pairBlock a b] := by
  have hpay : maxPayload (smallLink.side .left) = 64 := rfl
  -- the first read stays pending
  obtain ⟨timer, loose, h₁⟩ :=
    readTCP_eq reedSolomonTwoOne (smallLink.side .left) { s with reader := .read } [a]
  rw [if_pos (by simp [h.pending, smallLink])] at h₁
  -- the second read fills the block
  obtain ⟨timer', loose', h₂⟩ := readTCP_eq reedSolomonTwoOne (smallLink.side .left)
    { Sender.append { s with reader := .read } [a] timer loose with reader := .read } [b]
  rw [if_neg (by simp [Sender.append, h.pending, smallLink])] at h₂
  generalize hs₂ : ({ Sender.append { s with reader := .read } [a] timer loose with
    reader := .read } : Sender).append [b] .unset loose' = s₂ at h₂
  have hpend : s₂.pendingData = [frame [a], frame [b]] := by simp [← hs₂, Sender.append, h.pending]
  have hcur : s₂.curM = 1 := by simp [← hs₂, Sender.append, h.curM]
  have hpad : s₂.paddedPending (smallLink.side .left) = [frame [a], frame [b]] := by
    simp [Sender.paddedPending, hpend, smallLink]
  have hblock : s₂.nextBlock reedSolomonTwoOne (smallLink.side .left) = pairBlock a b := by
    simp only [Sender.nextBlock, hpad, hcur]
    rfl
  have henc : Fec.encode reedSolomonTwoOne (smallLink.side .left).fecK s₂.curM
      (s₂.paddedPending (smallLink.side .left)) =
      some [List.zipWith parityByte (frame [a]) (frame [b])] := by
    rw [hpad, hcur]
    exact encode_pair a b
  rw [flush_eq (by simp [hpend]) henc, hblock] at h₂
  refine ⟨{ readTCP reedSolomonTwoOne (smallLink.side .left)
    { Sender.append { s with reader := .read } [a] timer loose with reader := .read } [b] with
    reader := .check }, ?_, rfl, ?_, ?_, ?_, ?_, ?_, ?_, ?_⟩
  · simp [Sender.runTx, Sender.step, h.reader, Shaper.queueLen, h.queue, hpay, h₁, Sender.append]
  · rw [h₂]
  · rw [h₂]; exact hcur
  · rw [h₂]; simp [← hs₂, Sender.append, h.run]
  · rw [h₂]; simp [← hs₂, Sender.append]
  · rw [h₂]; simp [← hs₂, Sender.append, smallLink]
  · have hdg : s₂.nextDatagrams reedSolomonTwoOne (smallLink.side .left) =
        pairDatagrams s.nextGroupID s.nextSeqNum a b := by
      rw [Sender.nextDatagrams, hblock, pairDatagrams, ← hs₂]
      rfl
    rw [h₂, hdg]
    simp [← hs₂, Sender.append, Shaper.enqueueMany, h.running, h.queue]
  · rw [h₂]; simp [← hs₂, Sender.append]

theorem Sender.runTx_append {rs : ReedSolomon} {cfg : Config} {s s' : Sender} {out : List Bytes}
    (es es' : List TxEvent) (h : s.runTx rs cfg es = some (s', out)) :
    s.runTx rs cfg (es ++ es') = (s'.runTx rs cfg es').map fun r => (r.1, out ++ r.2) := by
  induction es generalizing s out with
  | nil =>
    simp only [Sender.runTx, Option.some.injEq, Prod.mk.injEq] at h
    obtain ⟨rfl, rfl⟩ := h
    simp
  | cons e es ih =>
    simp only [Sender.runTx, List.cons_append] at h ⊢
    split at h
    · rename_i s₁ out₁ hstep
      simp only [Option.map_eq_some_iff, Prod.mk.injEq, Prod.exists] at h
      obtain ⟨tx', out', hrest, rfl, rfl⟩ := h
      rw [ih hrest, Option.map_map]
      simp [Function.comp_def]
    · cases h

/-- The shaper takes the whole queue and sends it. -/
theorem Sender.runTx_send (rs : ReedSolomon) (cfg : Config) {s : Sender} (hrun : s.run = .wait)
    (hstop : s.shaper.stopped = false) (hint : s.shaper.burstInterval = 0) {x y z : Bytes}
    (hq : s.shaper.queue = [x, y, z]) :
    s.runTx rs cfg [.shaper .poll, .shaper .take, .shaper .send, .shaper .send, .shaper .send,
      .shaper .send] = some ({ s with shaper := { s.shaper with queue := [] } }, [x, y, z]) := by
  simp [Sender.runTx, Sender.step, Shaper.runStep, hrun, hstop, hint, hq]

/-- One round of the sender: two reads, a flush, and the packets go out. -/
theorem Sender.Idle.round {s : Sender} (h : s.Idle) (a b : UInt8) :
    ∃ s', s.runTx reedSolomonTwoOne (smallLink.side .left) (pairRun a b) =
        some (s', pairDatagrams s.nextGroupID s.nextSeqNum a b) ∧
      s'.Idle ∧ s'.sent = s.sent ++ [pairBlock a b] := by
  obtain ⟨s₁, hreads, hr, hp, hm, hw, hg, hq, hsh, hsent⟩ := h.reads a b
  obtain ⟨x, y, z, hdg⟩ : ∃ x y z, pairDatagrams s.nextGroupID s.nextSeqNum a b = [x, y, z] :=
    ⟨_, _, _, rfl⟩
  rw [hdg] at hsh
  refine ⟨{ s₁ with shaper := { s₁.shaper with queue := [] } }, ?_, ?_, hsent⟩
  · have hsend := runTx_send reedSolomonTwoOne (smallLink.side .left) hw
      (by rw [hsh]; exact h.running) (by rw [hsh]; exact h.unshaped) (by rw [hsh])
    rw [show pairRun a b = [.check, .read [a], .check, .read [b]] ++ [.shaper .poll, .shaper .take,
      .shaper .send, .shaper .send, .shaper .send, .shaper .send] from rfl, runTx_append _ _ hreads,
        hsend, hdg]
    rfl
  · refine ⟨hr, hp, hm, rfl, ?_, ?_, hw, ?_, ?_⟩
    · simp [hsh, h.running]
    · simp [hsh, h.unshaped]
    · rw [hg, hsent, h.group, List.length_append, List.length_singleton, UInt16.ofNat_add]
      rfl
    · rw [hq, hsent, h.seq, List.length_append, List.length_singleton, Nat.succ_mul,
        UInt8.ofNat_add]
      rfl

/-- The left end is between two blocks, nothing is on its way to the right end, and
the history ends with `n` blocks of zeros. -/
structure Quiet (peer : Session) (first : List Block) (n : Nat) (s : Link) : Prop where
  launched : (s.session .left).launched = true
  running : (s.session .left).cancelled = false
  idle : (s.session .left).tx.Idle
  net : s.net .right = []
  peer : s.session .right = peer
  sent : (s.session .left).tx.sent = first ++ List.replicate n (pairBlock 0 0)

section Rounds

variable {ok : Link → LinkEvent → Prop} {peer : Session} {first : List Block} {n : Nat}

/-- **One round of the link.** A block is flushed and all its packets are lost. -/
theorem Quiet.round (hact : ∀ s x e, ok s (.act x e)) (hdrop : ∀ s y i, ok s (.drop y i)) {s : Link}
    (hr : Reach (link reedSolomonTwoOne smallLink) ok s) (h : Quiet peer first n s) :
    ∃ s', Reach (link reedSolomonTwoOne smallLink) ok s' ∧ Quiet peer first (n + 1) s' := by
  obtain ⟨tx, hrun, hidle, hsent⟩ := h.idle.round 0 0
  have hr₁ := reach_runTx hact hr h.launched h.running _ hrun
  have hr₂ := reach_dropAll (y := .right) hdrop hr₁
  refine ⟨_, hr₂, ?_, ?_, ?_, ?_, ?_, ?_⟩
  · simpa [Link.afterTx] using h.launched
  · simpa [Link.afterTx] using h.running
  · simpa [Link.afterTx] using hidle
  · simp
  · simpa [Link.afterTx] using h.peer
  · simp [Link.afterTx, hsent, h.sent, List.replicate_succ']

theorem quiet_rounds (hact : ∀ s x e, ok s (.act x e)) (hdrop : ∀ s y i, ok s (.drop y i))
    {s : Link} (hr : Reach (link reedSolomonTwoOne smallLink) ok s) (h : Quiet peer first 0 s)
    (n : Nat) :
    ∃ s', Reach (link reedSolomonTwoOne smallLink) ok s' ∧ Quiet peer first n s' := by
  induction n with
  | zero => exact ⟨s, hr, h⟩
  | succ n ih =>
    obtain ⟨s', hr', h'⟩ := ih
    exact h'.round hact hdrop hr'

end Rounds

/-! ## A mixed block -/

/-- The first block is sent and only its first packet arrives. -/
def firstShard : List LinkEvent :=
  bothStart ++ (pairRun 10 11).map (fun e => .act .left (.tx e)) ++
    [.deliver .right 0 false, .drop .right 0, .drop .right 0]

/-- Shard 0 of block 0 in the receive block of group 0. -/
def halfBlock : RxBlock :=
  (newRxBlock (smallLink.side .right) 0).store 0 (frame [10])

theorem firstShard_quiet :
    ∃ s, Reach (link reedSolomonTwoOne smallLink) (fun _ e => Fifo e) s ∧
      Quiet (s.session .right) [pairBlock 10 11] 0 s ∧ (s.session .right).demux = .idle ∧
      (s.session .right).rx.recvClosed = false ∧ (s.session .right).rx.nextWriteGrp = 0 ∧
      (s.session .right).rx.rxBlocks.lookup 0 = some halfBlock := by
  obtain ⟨s, hr, ⟨hl, hc, hidle, hnet, hsent⟩, hpeer⟩ :
      ∃ s, Reach (link reedSolomonTwoOne smallLink) (fun _ e => Fifo e) s ∧
        ((s.session .left).launched = true ∧ (s.session .left).cancelled = false ∧
          (s.session .left).tx.Idle ∧ s.net .right = [] ∧
          (s.session .left).tx.sent = [pairBlock 10 11]) ∧
        (s.session .right).demux = .idle ∧ (s.session .right).rx.recvClosed = false ∧
        (s.session .right).rx.nextWriteGrp = 0 ∧
        (s.session .right).rx.rxBlocks.lookup 0 = some halfBlock :=
    Reach.exists_of_runOk _ firstShard (by decide +kernel)
  exact ⟨s, hr, ⟨hl, hc, hidle, hnet, rfl, hsent⟩, hpeer⟩

/-- The second packet of block 65536. -/
def lateShard : Packet := dataPacket (smallLink.side .left) 0 1 1 (frame [21])

/-- A packet that reaches an idle, open receiver goes into the block of its group. -/
theorem deliver_first {ok : Link → LinkEvent → Prop} {s : Link} {a : Bytes} {rest : List Bytes}
    (hr : Reach (link reedSolomonTwoOne smallLink) ok s) (hok : ok s (.deliver .right 0 false))
    (hnet : s.net .right = a :: rest) {p : Packet} (hread : readUDP a = .ok p)
    (hid : p.streamID = 1) (ht : p.type = .data) (hdemux : (s.session .right).demux = .idle)
    (hopen : (s.session .right).rx.recvClosed = false)
    (hnew : after (s.session .right).rx.nextWriteGrp p.groupID = false) {b : RxBlock}
    (hb : (s.session .right).rx.rxBlocks.lookup p.groupID = some b) :
    ∃ s', Reach (link reedSolomonTwoOne smallLink) ok s' ∧ s'.session .left = s.session .left ∧
      (s'.session .right).rx.rxBlocks.lookup p.groupID = some (b.receive reedSolomonTwoOne p) := by
  have hstep : ∃ s', (link reedSolomonTwoOne smallLink).step s (.deliver .right 0 false) = some s' ∧
      s'.session .left = s.session .left ∧
      (s'.session .right).rx =
        (s.session .right).rx.handleDataPacket reedSolomonTwoOne (smallLink.side .right) p := by
    simp [link, Link.step, hnet, hread, hid, smallLink, Link.feed, Session.step, Link.remove,
      hdemux, Session.handle, ht]
  obtain ⟨s', hs', hleft, hrx⟩ := hstep
  refine ⟨s', .step hr hok hs', hleft, ?_⟩
  rw [hrx, Receiver.handleDataPacket_accept hopen hnew]
  simp [Receiver.blockFor, hb]

/-- **A mixed block.** Over a network that only drops, block 65536 completes the receive
block that block 0 began. -/
theorem blocks_mixed :
    ∃ s, Reach (link reedSolomonTwoOne smallLink) (fun _ e => Fifo e) s ∧
      ∃ b, (s.session .right).rx.rxBlocks.lookup 0 = some b ∧ b.decoded = true ∧
        ∀ blk ∈ (s.session .left).tx.sent, ¬ ShardsOf twoOne blk b := by
  obtain ⟨s₁, hr₁, hq₁, hdemux, hopen, hnext, hhalf⟩ := firstShard_quiet
  obtain ⟨s₂, hr₂, hq₂⟩ := quiet_rounds (fun _ _ _ => trivial) (fun _ _ _ => trivial) hr₁ hq₁ 65535
  have hlen : (s₂.session .left).tx.sent.length = 65536 := by
    rw [hq₂.sent, List.length_append, List.length_replicate]
    rfl
  obtain ⟨tx, hrun, -, hsent⟩ := hq₂.idle.round 20 21
  rw [hq₂.idle.group, hq₂.idle.seq, hlen] at hrun
  obtain ⟨d₀, d₁, d₂, hdg, hread⟩ : ∃ d₀ d₁ d₂,
      pairDatagrams (UInt16.ofNat 65536) (UInt8.ofNat (65536 * 2)) 20 21 = [d₀, d₁, d₂] ∧
        readUDP d₁ = .ok lateShard := ⟨_, _, _, rfl, by decide +kernel⟩
  rw [hdg] at hrun
  have hr₃ := reach_runTx (fun _ _ _ => trivial) hr₂ hq₂.launched hq₂.running _ hrun
  generalize hs₃ : s₂.afterTx .left tx [d₀, d₁, d₂] = s₃ at hr₃
  have hnet₃ : s₃.net .right = [d₀, d₁, d₂] := by
    simpa [← hs₃, Link.afterTx, Side.other] using hq₂.net
  have hpeer₃ : s₃.session .right = s₁.session .right := by
    simpa [← hs₃, Link.afterTx] using hq₂.peer
  -- the first packet is lost, the second arrives
  have hdrop : (link reedSolomonTwoOne smallLink).step s₃ (.drop .right 0) =
      some (s₃.remove .right 0) := by
    simp [link, Link.step, hnet₃]
  have hr₄ : Reach (link reedSolomonTwoOne smallLink) (fun _ e => Fifo e) (s₃.remove .right 0) :=
    .step hr₃ (show Fifo (.drop .right 0) from trivial) hdrop
  have hnet₄ : (s₃.remove .right 0).net .right = [d₁, d₂] := by simp [Link.remove, hnet₃]
  have hpeer₄ : (s₃.remove .right 0).session .right = s₁.session .right := hpeer₃
  obtain ⟨s₅, hr₅, hleft, hb⟩ := deliver_first hr₄ ⟨rfl, rfl⟩ hnet₄ hread rfl rfl
    (by rw [hpeer₄]; exact hdemux) (by rw [hpeer₄]; exact hopen) (by rw [hpeer₄, hnext]; decide)
    (by rw [hpeer₄]; exact hhalf)
  refine ⟨s₅, hr₅, _, hb, by decide +kernel, ?_⟩
  have hsent₅ : (s₅.session .left).tx.sent =
      [pairBlock 10 11] ++ List.replicate 65535 (pairBlock 0 0) ++ [pairBlock 20 21] := by
    have hleft₃ : (s₃.session .left).tx = tx := by simp [← hs₃, Link.afterTx]
    have hleft₄ : (s₃.remove .right 0).session .left = s₃.session .left := rfl
    rw [hleft, hleft₄, hleft₃, hsent, hq₂.sent]
  intro blk hblk hof
  have h0 := hof 0 (frame [10]) (by decide +kernel)
  have h1 := hof 1 (frame [21]) (by decide +kernel)
  rw [hsent₅] at hblk
  simp only [List.mem_append, List.mem_singleton, List.mem_replicate] at hblk
  rcases hblk with (rfl | ⟨-, rfl⟩) | rfl
  · revert h1
    decide +kernel
  · revert h0
    decide +kernel
  · revert h0
    decide +kernel

end TcpPep
