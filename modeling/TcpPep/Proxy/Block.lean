import TcpPep.Fec.TwoOne
import TcpPep.Proxy.Recovery

/-!
What a flush sends.

Block `b` of a sender is its `b`-th flush, counted without wrapping. `packets`
gives the packets of a block from its number alone; `flush_eq` says that
`flushPendingBlockLocked` produces exactly these.

* `packet_shard`: a packet carries the shard of its index;
* `arrivals_holding`: the run lemma for any sequence of arrivals of one block;
* `recovers_block`: a block is decoded exactly when as many different shards as
  it has data shards have arrived, and gives back the reads.
-/

namespace TcpPep

open Protocol Fec FiniteMap ErasureCode

/-- The read a shard was framed from. -/
def unframe (shard : Bytes) : Bytes := shard.drop 2

@[simp] theorem unframe_frame (d : Bytes) : unframe (frame d) = d := by
  simp [unframe, frame, putUint16]

namespace Block

/-- The bytes a block carries. -/
def bytes (blk : Block) : Bytes := blk.data.flatMap unframe

/-- The packets of a block sent under a GroupID, with its first SeqNum. -/
def packetsAt (cfg : Config) (grpID : UInt16) (seqNum : UInt8) (blk : Block) : List Packet :=
  match blk.parity with
  | none => []
  | some parityShards =>
    dataPackets cfg grpID seqNum blk.data ++ parityPackets cfg grpID blk.m parityShards

/-- The packets of block number `b`. -/
def packets (cfg : Config) (b : Nat) (blk : Block) : List Packet :=
  blk.packetsAt cfg (UInt16.ofNat b) (UInt8.ofNat (b * cfg.fecK))

/-- A block as a flush makes it: `k` framed shards coded with its own parity count. -/
structure WF (rs : ReedSolomon) (k : Nat) (blk : Block) : Prop where
  length_data : blk.data.length = k
  framed : ∀ d ∈ blk.data, ∃ x : Bytes, x.length < 65536 ∧ d = frame x
  parity_eq : blk.parity = Fec.encode rs k blk.m blk.data

end Block

theorem mem_sendPacketDirect {p : Packet} {a : Bytes} :
    a ∈ sendPacketDirect p ↔ marshal p = .ok a := by
  unfold sendPacketDirect
  cases h : marshal p with
  | ok buf => simp [eq_comm]
  | error e => simp

theorem mem_packetsAt {cfg : Config} {g : UInt16} {q : UInt8} {blk : Block} {p : Packet}
    (h : p ∈ blk.packetsAt cfg g q) :
    ∃ (parityShards : List Bytes) (i : Nat), blk.parity = some parityShards ∧
      i < cfg.fecK + blk.m ∧ p.idx = UInt8.ofNat i ∧
      p = { type := .data, streamID := cfg.streamID, seqNum := p.seqNum, groupID := g,
            idx := p.idx, isParity := p.isParity,
            payload := if i < cfg.fecK then blk.data.getD i []
              else parityShards.getD (i - cfg.fecK) [] } := by
  unfold Block.packetsAt at h
  split at h
  · simp at h
  · rename_i parityShards hp
    rcases List.mem_append.mp h with h | h
    · obtain ⟨i, hi, rfl⟩ := List.mem_map.mp h
      have hi' := List.mem_range.mp hi
      exact ⟨parityShards, i, hp, by omega, rfl, by simp [dataPacket, hi']⟩
    · obtain ⟨j, hj, rfl⟩ := List.mem_map.mp h
      have hj' := List.mem_range.mp hj
      exact ⟨parityShards, cfg.fecK + j, hp, by omega, rfl, by simp [parityPacket]⟩

section Coded

variable {rs : ReedSolomon} {cfg : Config} {n : Nat} {code : Code UInt8 cfg.fecK n} {blk : Block}

theorem Block.WF.maxLen_pos (hwf : blk.WF rs cfg.fecK) (hK : 1 ≤ cfg.fecK) :
    0 < maxLen blk.data := by
  have hlt : 0 < blk.data.length := by rw [hwf.length_data]; exact hK
  have hm := List.getElem_mem hlt
  obtain ⟨x, -, hx⟩ := hwf.framed _ hm
  have hle := length_le_maxLen hm
  rw [hx, length_frame] at hle
  omega

/-- The parity shards of a block are those of the code, whatever its parity count. -/
theorem Block.WF.parity_shard (himpl : Implements rs code) (hwf : blk.WF rs cfg.fecK)
    (hK : 1 ≤ cfg.fecK) (hn : cfg.fecK + blk.m ≤ n) {parityShards : List Bytes}
    (hp : blk.parity = some parityShards) {j : Nat} (hj : j < blk.m) :
    parityShards.getD j [] = codeShard code blk.data (cfg.fecK + j) := by
  have he := encode_eq himpl hn hwf.length_data (hwf.maxLen_pos hK)
  rw [← hwf.parity_eq, hp, Option.some.injEq] at he
  subst he
  simp [List.getD_eq_getElem?_getD, hj, codeShard]

theorem packet_shard (himpl : Implements rs code) (hwf : blk.WF rs cfg.fecK) (hK : 1 ≤ cfg.fecK)
    (hn : cfg.fecK + blk.m ≤ n) (h32 : cfg.fecK + blk.m ≤ 32) {g : UInt16} {q : UInt8} {p : Packet}
    (h : p ∈ blk.packetsAt cfg g q) :
    p.idx < 32 ∧ p.idx.toNat < n ∧ p.payload = sentShard code blk.data p.idx.toNat := by
  obtain ⟨parityShards, i, hp, hi, hidx, hpkt⟩ := mem_packetsAt h
  have hnat : p.idx.toNat = i := by
    rw [hidx, UInt8.toNat_ofNat']
    omega
  refine ⟨by rw [UInt8.lt_iff_toNat_lt, hnat]; exact (by omega : i < 32), by omega, ?_⟩
  rw [hpkt, hnat, sentShard]
  split
  · rfl
  · rename_i hge
    have hj : cfg.fecK + (i - cfg.fecK) = i := by omega
    rw [hwf.parity_shard himpl hK hn hp (by omega), hj]

end Coded

/-! ## The next block of a sender -/

namespace Sender

variable (rs : ReedSolomon) (cfg : Config)

/-- The block a flush would make now. -/
def nextBlock (s : Sender) : Block :=
  ⟨s.paddedPending cfg, s.curM, Fec.encode rs cfg.fecK s.curM (s.paddedPending cfg)⟩

/-- The datagrams a flush would hand to the shaper now. -/
def nextDatagrams (s : Sender) : List Bytes :=
  ((s.nextBlock rs cfg).packetsAt cfg s.nextGroupID s.nextSeqNum).flatMap sendPacketDirect

variable {rs cfg}

theorem flush_of_empty {s : Sender} (h : s.pendingData = []) :
    flushPendingBlockLocked rs cfg s = s := by
  simp [flushPendingBlockLocked, h]

theorem flush_eq {s : Sender} (hne : s.pendingData ≠ []) {parityShards : List Bytes}
    (henc : Fec.encode rs cfg.fecK s.curM (s.paddedPending cfg) = some parityShards) :
    flushPendingBlockLocked rs cfg s =
      { s with
        nextGroupID := s.nextGroupID + 1
        nextSeqNum := s.nextSeqNum + UInt8.ofNat cfg.fecK
        harqCache := (dataPackets cfg s.nextGroupID s.nextSeqNum (s.paddedPending cfg)).foldl
          (fun cache p => cache.insert p.seqNum p) s.harqCache
        txBlocks := (eraseAll s.txBlocks (s.txBlocks.keys.filter (stale s.nextGroupID))).insert
          s.nextGroupID { groupID := s.nextGroupID, m := s.curM }
        shaper := s.shaper.enqueueMany (s.nextDatagrams rs cfg)
        pendingData := []
        sent := s.sent ++ [s.nextBlock rs cfg] } := by
  have he : s.pendingData.isEmpty = false := by simpa using hne
  simp only [flushPendingBlockLocked, he, Bool.false_eq_true, ↓reduceIte, henc, nextDatagrams,
    nextBlock, Block.packetsAt]

theorem length_paddedPending {s : Sender} (h : s.pendingData.length ≤ cfg.fecK) :
    (s.paddedPending cfg).length = cfg.fecK := by
  simp [paddedPending]; omega

/-- The reads behind the padded pending shards, with an empty read for padding. -/
theorem paddedPending_eq {s : Sender} {reads : List Bytes} (h : s.pendingData = reads.map frame) :
    s.paddedPending cfg = (reads ++ List.replicate (cfg.fecK - reads.length) []).map frame := by
  have hpad : frame [] = [0, 0] := by decide
  simp [paddedPending, h, hpad]

theorem nextBlock_wf {s : Sender} {reads : List Bytes} (h : s.pendingData = reads.map frame)
    (hle : reads.length ≤ cfg.fecK) (hlen : ∀ d ∈ reads, d.length < 65536) :
    (s.nextBlock rs cfg).WF rs cfg.fecK where
  length_data := length_paddedPending (by simpa [h] using hle)
  framed := by
    intro d hd
    change d ∈ s.paddedPending cfg at hd
    rw [paddedPending_eq h] at hd
    obtain ⟨x, hx, rfl⟩ := List.mem_map.mp hd
    refine ⟨x, ?_, rfl⟩
    rcases List.mem_append.mp hx with hx | hx
    · exact hlen x hx
    · rw [(List.mem_replicate.mp hx).2]
      decide
  parity_eq := rfl

end Sender

/-! ## Recovery over any sequence of arrivals -/

namespace Receiver

variable {rs : ReedSolomon} {cfg : Config}

/-- A datagram arrives and is handled. -/
def arrive (rs : ReedSolomon) (cfg : Config) (r : Receiver) (a : Bytes) : Receiver :=
  match unmarshal a with
  | .ok p => r.handleDataPacket rs cfg p
  | .error _ => r

/-- The block of a group, fresh if there is none yet. -/
def blockFor (cfg : Config) (r : Receiver) (g : UInt16) : RxBlock :=
  (r.rxBlocks.lookup g).getD (newRxBlock cfg g)

@[simp] theorem noteGroup_rxBlocks (r : Receiver) (g : UInt16) :
    (r.noteGroup g).rxBlocks = r.rxBlocks := by
  unfold noteGroup
  split
  · rfl
  · split <;> rfl

@[simp] theorem noteGroup_nextWriteGrp (r : Receiver) (g : UInt16) :
    (r.noteGroup g).nextWriteGrp = r.nextWriteGrp := by
  unfold noteGroup
  split
  · rfl
  · split <;> rfl

@[simp] theorem noteGroup_recvClosed (r : Receiver) (g : UInt16) :
    (r.noteGroup g).recvClosed = r.recvClosed := by
  unfold noteGroup
  split
  · rfl
  · split <;> rfl

/-- A packet of a group that is not behind the writer. -/
theorem handleDataPacket_accept {r : Receiver} {p : Packet} (hopen : r.recvClosed = false)
    (hnew : after r.nextWriteGrp p.groupID = false) :
    r.handleDataPacket rs cfg p =
      { r.noteGroup p.groupID with
        rxBlocks := r.rxBlocks.insert p.groupID ((r.blockFor cfg p.groupID).receive rs p) } := by
  simp [handleDataPacket, hopen, hnew, blockFor]

end Receiver

/-- The shard indices among the datagrams that have arrived. -/
def arrivedIdx (arrivals : List Bytes) : Finset Nat :=
  (arrivals.filterMap fun a =>
    match unmarshal a with
    | .ok p => some p.idx.toNat
    | .error _ => none).toFinset

section Recovery

variable {rs : ReedSolomon} {cfg : Config} {n : Nat} {code : Code UInt8 cfg.fecK n}

/-- What the peer reads from a datagram of a block that arrives whole. -/
theorem unmarshal_nextDatagrams (himpl : Implements rs code) {s : Sender}
    (hwf : (s.nextBlock rs cfg).WF rs cfg.fecK) (hK : 1 ≤ cfg.fecK) (hn : cfg.fecK + s.curM ≤ n)
    (h32 : cfg.fecK + s.curM ≤ 32) {a : Bytes} (ha : a ∈ s.nextDatagrams rs cfg) :
    ∃ p, unmarshal a = .ok p ∧ p.groupID = s.nextGroupID ∧ p.idx.toNat < n ∧
      p.payload = sentShard code (s.paddedPending cfg) p.idx.toNat := by
  obtain ⟨p, hp, ha⟩ := List.mem_flatMap.mp ha
  have hm := mem_sendPacketDirect.mp ha
  obtain ⟨hidx, hlt, hpay⟩ := packet_shard himpl hwf hK hn h32 hp
  obtain ⟨parityShards, i, -, -, -, hpkt⟩ := mem_packetsAt hp
  have ht : p.type = .data := by rw [hpkt]
  have hg : p.groupID = s.nextGroupID := by rw [hpkt]
  exact ⟨_, unmarshal_marshal_data_whole hm ht hidx, hg, hlt, hpay⟩

/-- The run lemma: after any arrivals of the block, the receive block holds it
with the arrived indices. -/
theorem arrivals_holding (himpl : Implements rs code) {s : Sender}
    (hwf : (s.nextBlock rs cfg).WF rs cfg.fecK) (hK : 1 ≤ cfg.fecK) (hn : cfg.fecK + s.curM ≤ n)
    (h32 : cfg.fecK + s.curM ≤ 32) (arrivals : List Bytes)
    (harr : ∀ a ∈ arrivals, a ∈ s.nextDatagrams rs cfg) :
    ∀ (r : Receiver) (R : Finset Nat), r.recvClosed = false →
      after r.nextWriteGrp s.nextGroupID = false →
      Holding code (s.paddedPending cfg) R (r.blockFor cfg s.nextGroupID) →
      Holding code (s.paddedPending cfg) (arrivedIdx arrivals ∪ R)
          ((arrivals.foldl (Receiver.arrive rs cfg) r).blockFor cfg s.nextGroupID) ∧
        (arrivals ≠ [] →
          ((arrivals.foldl (Receiver.arrive rs cfg) r).rxBlocks.lookup s.nextGroupID).isSome) := by
  induction arrivals with
  | nil =>
    intro r R _ _ h
    exact ⟨by simpa [arrivedIdx] using h, fun hne => absurd rfl hne⟩
  | cons a arrivals ih =>
    intro r R hopen hnew h
    obtain ⟨p, hp, hg, hidx, hpay⟩ :=
      unmarshal_nextDatagrams himpl hwf hK hn h32 (harr a (List.mem_cons_self ..))
    have hacc : Receiver.arrive rs cfg r a =
        { r.noteGroup s.nextGroupID with
          rxBlocks :=
            r.rxBlocks.insert s.nextGroupID ((r.blockFor cfg s.nextGroupID).receive rs p) } := by
      rw [Receiver.arrive, hp, ← hg]
      exact Receiver.handleDataPacket_accept hopen (by rw [hg]; exact hnew)
    have hstep := receive_holding himpl hwf.length_data (hwf.maxLen_pos hK) h hidx hpay
    have hidxs : arrivedIdx (a :: arrivals) = insert p.idx.toNat (arrivedIdx arrivals) := by
      simp [arrivedIdx, hp]
    obtain ⟨hhold, hsome⟩ := ih (fun x hx => harr x (List.mem_cons_of_mem _ hx))
      (Receiver.arrive rs cfg r a) (insert p.idx.toNat R)
      (by simpa [hacc] using hopen) (by simpa [hacc] using hnew)
      (by simpa [hacc, Receiver.blockFor, Sender.nextBlock] using hstep)
    rw [List.foldl_cons]
    constructor
    · rwa [hidxs, Finset.insert_union, ← Finset.union_insert]
    · intro _
      cases arrivals with
      | nil => simp [hacc]
      | cons a' arrivals => exact hsome (by simp)

/-- The reads a flush puts into the slots of its block, empty ones for padding. -/
theorem paddedPending_getD {s : Sender} {reads : List Bytes}
    (hpend : s.pendingData = reads.map frame) {i : Nat} (hi : i < cfg.fecK) :
    (s.paddedPending cfg).getD i [] = frame (reads.getD i []) := by
  rw [Sender.paddedPending_eq hpend]
  by_cases hlt : i < reads.length
  · simp [List.getD_eq_getElem?_getD, List.getElem?_append, hlt]
  · have hsub : i - reads.length < cfg.fecK - reads.length := by omega
    simp [List.getD_eq_getElem?_getD, List.getElem?_append, hlt, hsub]

/-- **Block recovery.** What a flush hands to the shaper arrives in any order, any
number of times, at a receiver that decodes with its own parity count. The block
is marked decoded exactly when `K` different indices have arrived, and from then
on the writer takes the original reads out of its slots. -/
theorem recovers_block (himpl : Implements rs code) (hK : 1 ≤ cfg.fecK) (s : Sender)
    (h32 : cfg.fecK + max s.curM cfg.fecM ≤ 32) (hn : cfg.fecK + max s.curM cfg.fecM ≤ n)
    (reads : List Bytes) (hne : reads ≠ []) (hpend : s.pendingData = reads.map frame)
    (hle : reads.length ≤ cfg.fecK) (hlen : ∀ d ∈ reads, d.length < 65536)
    (r : Receiver) (hopen : r.recvClosed = false)
    (hnew : after r.nextWriteGrp s.nextGroupID = false)
    (hfresh : r.blockFor cfg s.nextGroupID = newRxBlock cfg s.nextGroupID)
    (arrivals : List Bytes) (harr : ∀ a ∈ arrivals, a ∈ s.nextDatagrams rs cfg) (b : RxBlock)
    (hb : (arrivals.foldl (Receiver.arrive rs cfg) r).blockFor cfg s.nextGroupID = b) :
    (s.flushPendingBlockLocked rs cfg).shaper = s.shaper.enqueueMany (s.nextDatagrams rs cfg) ∧
      (arrivals ≠ [] →
        (arrivals.foldl (Receiver.arrive rs cfg) r).rxBlocks.lookup s.nextGroupID = some b) ∧
      (b.decoded = true ↔ cfg.fecK ≤ (arrivedIdx arrivals).card) ∧
      (b.decoded = true → ∀ i < cfg.fecK, extract (b.slot i) = reads.getD i []) := by
  have hwf : (s.nextBlock rs cfg).WF rs cfg.fecK := Sender.nextBlock_wf hpend hle hlen
  have hstart := newRxBlock_holding cfg s.nextGroupID (s.paddedPending cfg) hK (by omega) code
  rw [← hfresh] at hstart
  obtain ⟨hhold, hsome⟩ := arrivals_holding himpl hwf hK (by omega) (by omega) arrivals harr r ∅
    hopen hnew hstart
  rw [hb, Finset.union_empty] at hhold
  refine ⟨?_, ?_, ?_, ?_⟩
  · have henc := encode_eq himpl (m := s.curM) (by omega) hwf.length_data (hwf.maxLen_pos hK)
    rw [Sender.flush_eq (by simpa [hpend] using hne) henc]
  · intro harrived
    obtain ⟨b', hb'⟩ := Option.isSome_iff_exists.mp (hsome harrived)
    rw [Receiver.blockFor, hb', Option.getD_some] at hb
    rw [hb', hb]
  · constructor
    · exact fun hd => (hhold.decoded hd).1
    · intro hcard
      cases hd : b.decoded with
      | true => rfl
      | false => exact absurd (hhold.short hd) (by omega)
  · intro hd i hi
    have hshort : (reads.getD i []).length < 65536 := by
      by_cases hlt : i < reads.length
      · simpa [List.getD_eq_getElem?_getD, hlt] using hlen _ (List.getElem_mem hlt)
      · simp [List.getD_eq_getElem?_getD, hlt]
    exact extract_slot hwf.length_data hhold hd hi (paddedPending_getD hpend hi) hshort

/-- Two data shards and one parity shard, on a link of 100 bytes. -/
def smallConfig : Config := { streamID := 1, linkMTU := 100, bandwidth := 0, fecK := 2, fecM := 1 }

/-- A sender about to flush one read of two bytes and padding. -/
def smallSender : Sender := { newSender smallConfig with pendingData := [frame [7, 9]] }

/-- Its parity packet, the same again, and its padding packet. -/
def smallArrivals : List Bytes :=
  let sent := smallSender.nextDatagrams reedSolomonTwoOne smallConfig
  [sent.getD 2 [], sent.getD 2 [], sent.getD 1 []]

theorem recovers_block_small :
    ∃ b, (smallArrivals.foldl (Receiver.arrive reedSolomonTwoOne smallConfig) {}).rxBlocks.lookup
        0 = some b ∧ b.decoded = true ∧ extract (b.slot 0) = [7, 9] := by
  obtain ⟨-, hb, hiff, hread⟩ := @recovers_block reedSolomonTwoOne smallConfig 3 twoOne
    implements_twoOne (by decide) smallSender (by decide) (by decide) [[7, 9]] (by decide) rfl
    (by decide) (by decide) {} rfl (by decide) rfl smallArrivals (by decide) _ rfl
  have hd := hiff.mpr (by decide)
  exact ⟨_, hb (by decide), hd, hread hd 0 (by decide)⟩

end Recovery

end TcpPep
