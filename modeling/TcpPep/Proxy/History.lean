import TcpPep.Proxy.Block
import TcpPep.Proxy.Session

/-!
The history of a sending half.

`sent` lists every flush of a session. The 16-bit GroupID and the 8-bit SeqNum
are residues of counts of that list, so whatever a session has queued, cached or
put on the wire can be traced to a block of it.

* `Ledger`: the counters, the cache and the pending reads against the history;
* `Emitted`: the datagrams a session can have sent;
* `Sender.Stepped.sound`, `Session.step_tx`: the step lemmas;
* `Emitted.read`: what the peer reads from such a datagram.
-/

namespace TcpPep

open Protocol Fec FiniteMap ErasureCode

/-- A packet of block number `b` of a history. -/
def FromBlock (cfg : Config) (sent : List Block) (b : Nat) (p : Packet) : Prop :=
  ∃ blk, sent[b]? = some blk ∧ p ∈ blk.packets cfg b

/-- A datagram of some block of a history. -/
def BlockDatagram (cfg : Config) (sent : List Block) (a : Bytes) : Prop :=
  ∃ b p, FromBlock cfg sent b p ∧ marshal p = .ok a

/-- Data packet `i` of block `b`. -/
def shardPacket (cfg : Config) (b : Nat) (blk : Block) (i : Nat) : Packet :=
  dataPacket cfg (UInt16.ofNat b) (UInt8.ofNat (b * cfg.fecK + i)) i (blk.data.getD i [])

/-- The HARQ cache holds the last 256 data packets, and nothing else. -/
def Cached (cfg : Config) (sent : List Block) (cache : Table UInt8 Packet) : Prop :=
  ∀ q p, cache.lookup q = some p ↔
    ∃ b blk i, sent[b]? = some blk ∧ i < cfg.fecK ∧
      sent.length * cfg.fecK ≤ b * cfg.fecK + i + 256 ∧
      q = UInt8.ofNat (b * cfg.fecK + i) ∧ p = shardPacket cfg b blk i

/-- A block of the history: coded, small enough for the link, and not empty. -/
structure Flushed (rs : ReedSolomon) (cfg : Config) (blk : Block) :
    Prop extends blk.WF rs cfg.fecK where
  m_le : blk.m ≤ cfg.fecM
  coded : ∃ parityShards, blk.parity = some parityShards
  short : ∀ d ∈ blk.data, d.length ≤ maxPayload cfg + 2
  bytes_ne : blk.bytes ≠ []

/-- The books of a sending half. -/
structure Ledger (rs : ReedSolomon) (cfg : Config) (nextGroupID : UInt16) (nextSeqNum : UInt8)
    (curM : Nat) (pendingData : List Bytes) (harqCache : Table UInt8 Packet) (tcpIn : Bytes)
    (sent : List Block) : Prop where
  group : nextGroupID = UInt16.ofNat sent.length
  seq : nextSeqNum = UInt8.ofNat (sent.length * cfg.fecK)
  parity : curM ≤ cfg.fecM
  blocks : ∀ blk ∈ sent, Flushed rs cfg blk
  cache : Cached cfg sent harqCache
  reads : ∃ reads : List Bytes, pendingData = reads.map frame ∧ reads.length ≤ cfg.fecK ∧
    (∀ d ∈ reads, d ≠ [] ∧ d.length ≤ maxPayload cfg) ∧
    tcpIn = sent.flatMap Block.bytes ++ reads.flatten

/-- The conditions on the parameters that the history needs. -/
structure Config.Valid (cfg : Config) (n : Nat) : Prop where
  one_le : 1 ≤ cfg.fecK
  le_rows : cfg.fecK + cfg.fecM ≤ n
  le_idx : cfg.fecK + cfg.fecM ≤ 32
  /-- a DATA packet fits the receive buffer of the peer -/
  fits : maxPayload cfg + 8 ≤ 2048

theorem FromBlock.mono {cfg : Config} {sent sent' : List Block} (h : sent <+: sent') {b : Nat}
    {p : Packet} (hp : FromBlock cfg sent b p) : FromBlock cfg sent' b p := by
  obtain ⟨blk, hb, hp⟩ := hp
  obtain ⟨rest, rfl⟩ := h
  exact ⟨blk, List.getElem?_append_left (List.getElem?_eq_some_iff.mp hb).1 ▸ hb, hp⟩

theorem BlockDatagram.mono {cfg : Config} {sent sent' : List Block} (h : sent <+: sent') {a : Bytes}
    (ha : BlockDatagram cfg sent a) : BlockDatagram cfg sent' a := by
  obtain ⟨b, p, hp, ha⟩ := ha
  exact ⟨b, p, hp.mono h, ha⟩

/-! ## The cache -/

section Cache

variable {cfg : Config} {sent : List Block} {cache : Table UInt8 Packet}

theorem dataPackets_eq (cfg : Config) (b : Nat) (blk : Block) :
    dataPackets cfg (UInt16.ofNat b) (UInt8.ofNat (b * cfg.fecK)) blk.data =
      (List.range cfg.fecK).map (shardPacket cfg b blk) := by
  simp [dataPackets, shardPacket, UInt8.ofNat_add]

theorem shardPacket_mem {b i : Nat} {blk : Block} (hi : i < cfg.fecK) {parityShards : List Bytes}
    (hp : blk.parity = some parityShards) : shardPacket cfg b blk i ∈ blk.packets cfg b := by
  rw [Block.packets, Block.packetsAt, hp]
  simp only [dataPackets_eq, List.mem_append, List.mem_map, List.mem_range]
  exact Or.inl ⟨i, hi, rfl⟩

theorem ofNat8_eq_iff {x y : Nat} : UInt8.ofNat x = UInt8.ofNat y ↔ x % 256 = y % 256 := by
  rw [← UInt8.toNat_inj, UInt8.toNat_ofNat', UInt8.toNat_ofNat']

/-- Position `b * k + i` determines `b` and `i`. -/
theorem position_inj {k b i b' i' : Nat} (hi : i < k) (hi' : i' < k) (h : b * k + i = b' * k + i') :
    b = b' ∧ i = i' := by
  have hb : b = b' := by
    have h1 : (b * k + i) / k = b := by
      rw [Nat.mul_comm, Nat.mul_add_div (by omega), Nat.div_eq_of_lt hi, Nat.add_zero]
    have h2 : (b' * k + i') / k = b' := by
      rw [Nat.mul_comm, Nat.mul_add_div (by omega), Nat.div_eq_of_lt hi', Nat.add_zero]
    rw [← h1, h, h2]
  subst hb
  exact ⟨rfl, by omega⟩

theorem shardPacket_pairwise (hK : cfg.fecK ≤ 256) (b : Nat) (blk : Block) :
    ((List.range cfg.fecK).map (shardPacket cfg b blk)).Pairwise fun p p' =>
    p.seqNum ≠ p'.seqNum := by
  rw [List.pairwise_map]
  apply List.pairwise_lt_range.imp_of_mem
  intro i j hi hj hij heq
  have hj' := List.mem_range.mp hj
  have hmod := ofNat8_eq_iff.mp heq
  omega

/-- A flush replaces the oldest entries of the cache by its own packets. -/
theorem Cached.flush (h : Cached cfg sent cache) (hK : cfg.fecK ≤ 256) (blk : Block) :
    Cached cfg (sent ++ [blk]) (((List.range cfg.fecK).map (shardPacket cfg sent.length blk)).foldl
      (fun cache p => cache.insert p.seqNum p) cache) := by
  intro q p
  have hlen : (sent ++ [blk]).length * cfg.fecK = sent.length * cfg.fecK + cfg.fecK := by
    rw [List.length_append, List.length_singleton, Nat.succ_mul]
  by_cases hq : ∃ i < cfg.fecK, q = UInt8.ofNat (sent.length * cfg.fecK + i)
  · -- `q` is a number of the new block: the entry is new, and the only one in the window
    obtain ⟨i, hi, rfl⟩ := hq
    have hmem : shardPacket cfg sent.length blk i ∈
        (List.range cfg.fecK).map (shardPacket cfg sent.length blk) :=
      List.mem_map.mpr ⟨i, List.mem_range.mpr hi, rfl⟩
    have hnew := lookup_foldl_insert_of_mem Packet.seqNum cache
      (shardPacket_pairwise hK sent.length blk) hmem
    change _ = some (shardPacket cfg sent.length blk i) at hnew
    rw [show (shardPacket cfg sent.length blk i).seqNum =
      UInt8.ofNat (sent.length * cfg.fecK + i) from rfl] at hnew
    rw [hnew]
    constructor
    · intro hp
      exact ⟨sent.length, blk, i, by simp, hi, by omega, rfl, (Option.some.inj hp).symm⟩
    · rintro ⟨b, blk', i', hb, hi', hle, hq, rfl⟩
      have hb' : b < sent.length + 1 := by
        have := (List.getElem?_eq_some_iff.mp hb).1
        simpa using this
      have hle' : b * cfg.fecK ≤ sent.length * cfg.fecK := Nat.mul_le_mul_right _ (by omega)
      have hmod := ofNat8_eq_iff.mp hq
      obtain ⟨rfl, rfl⟩ :=
        position_inj hi hi' (by omega : sent.length * cfg.fecK + i = b * cfg.fecK + i')
      simp only [List.getElem?_concat_length, Option.some.injEq] at hb
      rw [hb]
  · rw [lookup_foldl_insert_of_forall_ne Packet.seqNum _ cache, h q p]
    · constructor
      · rintro ⟨b, blk', i, hb, hi, hle, rfl, rfl⟩
        refine ⟨b, blk', i, ?_, hi, ?_, rfl, rfl⟩
        · rw [List.getElem?_append_left (List.getElem?_eq_some_iff.mp hb).1, hb]
        · by_contra hgt
          refine hq ⟨b * cfg.fecK + i + 256 - sent.length * cfg.fecK, by omega, ?_⟩
          rw [ofNat8_eq_iff]
          omega
      · rintro ⟨b, blk', i, hb, hi, hle, rfl, rfl⟩
        refine ⟨b, blk', i, ?_, hi, by omega, rfl, rfl⟩
        by_cases hlt : b < sent.length
        · rwa [List.getElem?_append_left hlt] at hb
        · have hlt' : b < sent.length + 1 := by
            have := (List.getElem?_eq_some_iff.mp hb).1
            simpa using this
          obtain rfl : b = sent.length := by omega
          exact absurd ⟨i, hi, rfl⟩ hq
    · intro p' hp' he
      obtain ⟨i, hi, rfl⟩ := List.mem_map.mp hp'
      exact hq ⟨i, List.mem_range.mp hi, he.symm⟩

end Cache

/-! ## A flush -/

namespace Sender

variable {rs : ReedSolomon} {cfg : Config} {n : Nat} {code : Code UInt8 cfg.fecK n} {s : Sender}

/-- The books of a sending half. -/
def Books (rs : ReedSolomon) (cfg : Config) (s : Sender) : Prop :=
  Ledger rs cfg s.nextGroupID s.nextSeqNum s.curM s.pendingData s.harqCache s.tcpIn s.sent

/-- What the shaper holds can be traced to a block. -/
def Traced (cfg : Config) (s : Sender) : Prop :=
  ∀ a, a ∈ s.run.held ∨ a ∈ s.shaper.queue → BlockDatagram cfg s.sent a

/-- Between two steps less than a block is pending. -/
def Inv (rs : ReedSolomon) (cfg : Config) (s : Sender) : Prop :=
  s.Books rs cfg ∧ s.pendingData.length < cfg.fecK ∧ s.Traced cfg

/-- What a flush leaves alone, and that nothing stays pending. -/
theorem flush_frame (rs : ReedSolomon) (cfg : Config) (s : Sender) :
    let s' := s.flushPendingBlockLocked rs cfg
    s'.pendingData = [] ∧ s'.tcpIn = s.tcpIn ∧ s'.reader = s.reader ∧ s'.closer = s.closer ∧
      s'.run = s.run ∧ s'.closeSent = s.closeSent ∧ s'.closeRecv = s.closeRecv := by
  unfold flushPendingBlockLocked
  split
  · rename_i h
    exact ⟨by simpa using h, rfl, rfl, rfl, rfl, rfl, rfl⟩
  · cases henc : Fec.encode rs cfg.fecK s.curM (s.paddedPending cfg) with
    | none => simp only [henc, and_self]
    | some parityShards => simp only [henc, and_self]

section Frame

variable (rs : ReedSolomon) (cfg : Config) (s : Sender)

@[simp] theorem flush_pendingData : (s.flushPendingBlockLocked rs cfg).pendingData = [] :=
  (flush_frame rs cfg s).1

@[simp] theorem flush_tcpIn : (s.flushPendingBlockLocked rs cfg).tcpIn = s.tcpIn :=
  (flush_frame rs cfg s).2.1

@[simp] theorem flush_reader : (s.flushPendingBlockLocked rs cfg).reader = s.reader :=
  (flush_frame rs cfg s).2.2.1

@[simp] theorem flush_closer : (s.flushPendingBlockLocked rs cfg).closer = s.closer :=
  (flush_frame rs cfg s).2.2.2.1

@[simp] theorem flush_run : (s.flushPendingBlockLocked rs cfg).run = s.run :=
  (flush_frame rs cfg s).2.2.2.2.1

@[simp] theorem flush_closeSent : (s.flushPendingBlockLocked rs cfg).closeSent = s.closeSent :=
  (flush_frame rs cfg s).2.2.2.2.2.1

@[simp] theorem flush_closeRecv : (s.flushPendingBlockLocked rs cfg).closeRecv = s.closeRecv :=
  (flush_frame rs cfg s).2.2.2.2.2.2

end Frame

theorem nextBlock_bytes {reads : List Bytes} (h : s.pendingData = reads.map frame) :
    (s.nextBlock rs cfg).bytes = reads.flatten := by
  have hdata : (s.nextBlock rs cfg).data = s.paddedPending cfg := rfl
  rw [Block.bytes, hdata, paddedPending_eq h, List.flatMap_map]
  simp [List.flatMap_def]

theorem nextBlock_bytes_ne_nil {reads : List Bytes} (h : s.pendingData = reads.map frame)
    (hne : s.pendingData ≠ []) (hreads : ∀ d ∈ reads, d ≠ []) :
    (s.nextBlock rs cfg).bytes ≠ [] := by
  rw [nextBlock_bytes h]
  cases reads with
  | nil => exact absurd (by simpa using h) hne
  | cons d reads =>
    have hd := hreads d List.mem_cons_self
    simp [hd]

/-- The data of the next block are the pending reads and the padding. -/
theorem mem_nextBlock_data {reads : List Bytes} {d : Bytes} (h : s.pendingData = reads.map frame)
    (hd : d ∈ (s.nextBlock rs cfg).data) : ∃ x, (x ∈ reads ∨ x = []) ∧ d = frame x := by
  change d ∈ s.paddedPending cfg at hd
  rw [paddedPending_eq h] at hd
  obtain ⟨x, hx, rfl⟩ := List.mem_map.mp hd
  rcases List.mem_append.mp hx with hx | hx
  · exact ⟨x, Or.inl hx, rfl⟩
  · exact ⟨x, Or.inr (List.mem_replicate.mp hx).2, rfl⟩

theorem nextBlock_flushed (himpl : Implements rs code) (hv : cfg.Valid n) (hb : s.Books rs cfg)
    (hne : s.pendingData ≠ []) : Flushed rs cfg (s.nextBlock rs cfg) := by
  obtain ⟨reads, hpend, hle, hreads, -⟩ := hb.reads
  have hfits := hv.fits
  have hwf : (s.nextBlock rs cfg).WF rs cfg.fecK :=
    nextBlock_wf hpend hle fun d hd => Nat.lt_of_le_of_lt (hreads d hd).2 (by omega)
  have hm := hb.parity
  have hrows := hv.le_rows
  refine ⟨hwf, hm, ⟨_, encode_eq himpl (by omega) hwf.length_data (hwf.maxLen_pos hv.one_le)⟩, ?_,
    nextBlock_bytes_ne_nil hpend hne fun d hd => (hreads d hd).1⟩
  intro d hd
  obtain ⟨x, hx | rfl, rfl⟩ := mem_nextBlock_data hpend hd
  · rw [length_frame]
    exact Nat.add_le_add_right (hreads x hx).2 2
  · simp [length_frame]

theorem nextDatagrams_traced (hb : s.Books rs cfg) {a : Bytes} (ha : a ∈ s.nextDatagrams rs cfg) :
    BlockDatagram cfg (s.sent ++ [s.nextBlock rs cfg]) a := by
  obtain ⟨p, hp, ha⟩ := List.mem_flatMap.mp ha
  rw [hb.group, hb.seq] at hp
  exact ⟨s.sent.length, p, ⟨s.nextBlock rs cfg, by simp, hp⟩, mem_sendPacketDirect.mp ha⟩

/-- **Step lemma for a flush.** It closes the books on the pending reads. -/
theorem flush_inv (himpl : Implements rs code) (hv : cfg.Valid n) (hb : s.Books rs cfg)
    (ht : s.Traced cfg) :
    (s.flushPendingBlockLocked rs cfg).Inv rs cfg ∧
    s.sent <+: (s.flushPendingBlockLocked rs cfg).sent := by
  have hone := hv.one_le
  by_cases hne : s.pendingData = []
  · rw [flush_of_empty hne]
    exact ⟨⟨hb, by rw [hne]; exact hone, ht⟩, List.prefix_refl _⟩
  · have hnew := nextBlock_flushed himpl hv hb hne
    obtain ⟨reads, hpend, -, -, htcp⟩ := hb.reads
    obtain ⟨parityShards, henc⟩ := hnew.coded
    have hbytes : (s.nextBlock rs cfg).bytes = reads.flatten := nextBlock_bytes hpend
    rw [flush_eq hne henc]
    refine ⟨⟨⟨?_, ?_, hb.parity, ?_, ?_, ⟨[], rfl, Nat.zero_le _, by simp, ?_⟩⟩, hone, ?_⟩,
      List.prefix_append _ _⟩
    · rw [hb.group, List.length_append, List.length_singleton, UInt16.ofNat_add]
      rfl
    · rw [hb.seq, List.length_append, List.length_singleton, Nat.succ_mul, UInt8.ofNat_add]
    · intro blk hblk
      rcases List.mem_append.mp hblk with hblk | hblk
      · exact hb.blocks blk hblk
      · rw [List.mem_singleton.mp hblk]
        exact hnew
    · have hcached := hb.cache.flush (by have := hv.le_idx; omega) (s.nextBlock rs cfg)
      rw [← dataPackets_eq, ← hb.group, ← hb.seq] at hcached
      exact hcached
    · simp [htcp, hbytes]
    · intro a ha
      rcases ha with ha | ha
      · exact (ht a (Or.inl ha)).mono (List.prefix_append _ _)
      · rcases Shaper.mem_enqueueMany ha with ha | ha
        · exact (ht a (Or.inr ha)).mono (List.prefix_append _ _)
        · exact nextDatagrams_traced hb ha

end Sender

/-! ## The steps of the sending half -/

/-- The datagrams a session whose sending half is `s` can have put on the wire. A
RESET leaves a reader behind that never starts the CLOSE goroutine. -/
inductive Emitted (cfg : Config) (s : Sender) (a : Bytes) : Prop
  | block (h : BlockDatagram cfg s.sent a)
  | close (h : s.closer ≠ .idle) (ha : marshal (Sender.closePacket cfg) = .ok a)
  | reset (h : s.reader = .returned ∧ s.closer = .idle)
      (ha : marshal (Sender.resetPacket cfg) = .ok a)
  | lqr (g : UInt16) (losses : Nat) (ha : marshal (Receiver.lqrPacket cfg g losses) = .ok a)
  | nak (q : UInt8) (ha : marshal (Receiver.nakPacket cfg q) = .ok a)

/-- `s'` continues the history of `s`. -/
structure Extends (s s' : Sender) : Prop where
  sent : s.sent <+: s'.sent
  tcpIn : s.tcpIn <+: s'.tcpIn
  closer : s.closer ≠ .idle → s'.closer ≠ .idle
  failed : s.reader = .returned ∧ s.closer = .idle → s'.reader = .returned ∧ s'.closer = .idle

theorem Extends.rfl {s : Sender} : Extends s s :=
  ⟨List.prefix_refl _, List.prefix_refl _, id, id⟩

theorem Emitted.mono {cfg : Config} {s s' : Sender} (h : Extends s s') {a : Bytes}
    (ha : Emitted cfg s a) : Emitted cfg s' a := by
  cases ha with
  | block hb => exact .block (hb.mono h.sent)
  | close hc ha => exact .close (h.closer hc) ha
  | reset hf ha => exact .reset (h.failed hf) ha
  | lqr g losses ha => exact .lqr g losses ha
  | nak q ha => exact .nak q ha

namespace Sender

variable {rs : ReedSolomon} {cfg : Config} {n : Nat} {code : Code UInt8 cfg.fecK n} {s : Sender}

/-- How the stream ends: the CLOSE goroutine starts after the reader has returned,
with nothing pending. -/
structure Ends (pendingData : List Bytes) (reader : Reader) (closer : Closer) (closeSent : Bool) :
    Prop where
  drained : reader = .finDrain ∨ reader = .finAck ∨ closer ≠ .idle → pendingData = []
  returned : closer ≠ .idle → reader = .returned
  marked : closeSent = true → closer ≠ .idle

/-- What every step of the sending half keeps and may send. -/
structure Sound (rs : ReedSolomon) (cfg : Config) (s : Sender) (eff : Effect Sender) : Prop where
  inv : eff.state.Inv rs cfg
  ends : Ends eff.state.pendingData eff.state.reader eff.state.closer eff.state.closeSent
  history : Extends s eff.state
  closeRecv : eff.state.closeRecv = s.closeRecv
  out : ∀ a ∈ eff.out, Emitted cfg eff.state a

/-- The sending half with one more read pending. -/
def append (s : Sender) (data : Bytes) (timer : BlockTimer) (loose : Nat) : Sender :=
  { s with tcpIn := s.tcpIn ++ data, pendingData := s.pendingData ++ [frame data]
           blockTimer := timer, looseTimers := loose }

/-- A read appends its frame; a full block is flushed at once. -/
theorem readTCP_eq (rs : ReedSolomon) (cfg : Config) (s : Sender) (data : Bytes) :
    ∃ timer loose, s.readTCP rs cfg data =
      if s.pendingData.length + 1 < cfg.fecK then s.append data timer loose
      else (s.append data .unset loose).flushPendingBlockLocked rs cfg := by
  unfold readTCP
  simp only [List.length_append, List.length_singleton]
  have hfull : ∀ s₁ : Sender, s₁.pendingData = s.pendingData ++ [frame data] →
      (s₁.pendingData.length ≥ cfg.fecK ↔ ¬ s.pendingData.length + 1 < cfg.fecK) := by
    intro s₁ h₁
    simp [h₁]
  split
  · refine ⟨.armed, (s.append data s.blockTimer s.looseTimers).startBlockTimer.looseTimers, ?_⟩
    by_cases hlt : s.pendingData.length + 1 < cfg.fecK
    · rw [if_neg ((hfull _ rfl).not.mpr (not_not.mpr hlt)), if_pos hlt]
      rfl
    · rw [if_pos ((hfull _ rfl).mpr hlt), if_neg hlt]
      rfl
  · refine ⟨s.blockTimer, s.looseTimers, ?_⟩
    by_cases hlt : s.pendingData.length + 1 < cfg.fecK
    · rw [if_neg ((hfull _ rfl).not.mpr (not_not.mpr hlt)), if_pos hlt]
      rfl
    · rw [if_pos ((hfull _ rfl).mpr hlt), if_neg hlt]
      rfl

/-- A read adds to the pending reads and closes the books on a full block. -/
theorem readTCP_inv (himpl : Implements rs code) (hv : cfg.Valid n) (hi : s.Inv rs cfg)
    {data : Bytes} (hne : data ≠ []) (hle : data.length ≤ maxPayload cfg) :
    (s.readTCP rs cfg data).Inv rs cfg ∧ s.sent <+: (s.readTCP rs cfg data).sent ∧
      (s.readTCP rs cfg data).tcpIn = s.tcpIn ++ data ∧
      (s.readTCP rs cfg data).closer = s.closer ∧ (s.readTCP rs cfg data).closeSent = s.closeSent ∧
      (s.readTCP rs cfg data).closeRecv = s.closeRecv := by
  obtain ⟨hb, hlt, ht⟩ := hi
  obtain ⟨reads, hpend, -, hreads, htcp⟩ := hb.reads
  have hlen : reads.length < cfg.fecK := by simpa [hpend] using hlt
  have hbooks : ∀ timer loose, (s.append data timer loose).Books rs cfg := by
    intro timer loose
    refine ⟨hb.group, hb.seq, hb.parity, hb.blocks, hb.cache, reads ++ [data], ?_, ?_, ?_, ?_⟩
    · simp [append, hpend]
    · simpa using Nat.succ_le_of_lt hlen
    · intro d hd
      rcases List.mem_append.mp hd with hd | hd
      · exact hreads d hd
      · rw [List.mem_singleton.mp hd]
        exact ⟨hne, hle⟩
    · simp [append, htcp]
  obtain ⟨timer, loose, heq⟩ := readTCP_eq rs cfg s data
  rw [heq]
  split
  · rename_i hshort
    exact ⟨⟨hbooks timer loose, by simpa [append] using hshort, ht⟩, List.prefix_refl _, rfl, rfl,
      rfl, rfl⟩
  · obtain ⟨hinv, hpre⟩ := flush_inv himpl hv (hbooks .unset loose) ht
    exact ⟨hinv, hpre, by simp [append], by simp [append], by simp [append], by simp [append]⟩

theorem Sound.of_place {s s' : Sender} {out : List Bytes} {close : Bool} (hi : s'.Inv rs cfg)
    (hsent : s'.sent = s.sent) (htcp : s'.tcpIn = s.tcpIn)
    (hends : Ends s'.pendingData s'.reader s'.closer s'.closeSent)
    (hcloser : s.closer ≠ .idle → s'.closer ≠ .idle)
    (hfailed : s.reader = .returned ∧ s.closer = .idle → s'.reader = .returned ∧ s'.closer = .idle)
    (hrecv : s'.closeRecv = s.closeRecv)
    (hout : ∀ a ∈ out, Emitted cfg s' a) : Sound rs cfg s { state := s', out, close } :=
  ⟨hi, hends, ⟨by rw [hsent], by rw [htcp], hcloser, hfailed⟩, hrecv, hout⟩

theorem Sound.of_reader (hi : s.Inv rs cfg) (he : Ends s.pendingData s.reader s.closer s.closeSent)
    (hc : s.closer = .idle) (hr : s.reader ≠ .returned) {reader : Reader}
    (hd : reader = .finDrain ∨ reader = .finAck → s.pendingData = []) {sendClosed close : Bool}
    {out : List Bytes} (hout : ∀ a ∈ out, Emitted cfg { s with sendClosed, reader } a) :
    Sound rs cfg s { state := { s with sendClosed, reader }, out, close } :=
  .of_place hi rfl rfl ⟨by simpa [hc] using hd, by simp [hc],
    he.marked⟩ id (fun h => absurd h.1 hr) rfl hout

/-- The CLOSE goroutine moves on, and sends CLOSEs only. -/
theorem Sound.of_closer (hi : s.Inv rs cfg) (he : Ends s.pendingData s.reader s.closer s.closeSent)
    (hne : s.closer ≠ .idle) {closer : Closer} (hc : closer ≠ .idle) {closeSent close : Bool}
    {out : List Bytes} (hout : ∀ a ∈ out, marshal (closePacket cfg) = .ok a) :
    Sound rs cfg s { state := { s with closer, closeSent }, out, close } :=
  .of_place hi rfl rfl ⟨fun _ => he.drained (Or.inr (Or.inr hne)), fun _ => he.returned hne,
    fun _ => hc⟩
    (fun _ => hc) (fun h => absurd h.2 hne) rfl fun a ha => .close hc (hout a ha)

/-- **Step lemma.** Every step of the sending half keeps its books, continues its
history and sends only what can be traced to it. -/
theorem Stepped.sound (himpl : Implements rs code) (hv : cfg.Valid n) {done : Bool} {e : TxEvent}
    {eff : Effect Sender} (h : Stepped rs cfg done s e eff) (hi : s.Inv rs cfg)
    (he : Ends s.pendingData s.reader s.closer s.closeSent) : Sound rs cfg s eff := by
  have hidle : s.reader ≠ .returned → s.closer = .idle := fun hr => by
    by_contra hc
    exact hr (he.returned hc)
  cases h with
  | check hr hd hq =>
    have hne : s.reader ≠ .returned := by simp [hr]
    exact .of_reader hi he (hidle hne) hne (by simp) (by simp)
  | read data hr hne hle =>
    have hc := hidle (by simp [hr])
    obtain ⟨hinv, hpre, htcp, hcloser, hmark, hrecv⟩ := readTCP_inv himpl hv hi hne hle
    refine ⟨hinv, ⟨by simp [hcloser, hc], by simp [hcloser, hc], ?_⟩, ⟨hpre, ?_, ?_, ?_⟩, hrecv, by
      simp⟩
    · simpa [hcloser, hmark] using he.marked
    · simp [htcp]
    · simp [hc]
    · simp [hr]
  | eof hr =>
    have hne : s.reader ≠ .returned := by simp [hr]
    exact .of_reader hi he (hidle hne) hne (by simp) (by simp)
  | readError hr =>
    have hne : s.reader ≠ .returned := by simp [hr]
    refine .of_reader hi he (hidle hne) hne (by simp) fun a ha => ?_
    obtain ⟨p, hp, ha⟩ := List.mem_flatMap.mp ha
    rw [(List.mem_replicate.mp hp).2] at ha
    exact .reset ⟨rfl, hidle hne⟩ (mem_sendPacketDirect.mp ha)
  | finFlush hr hd =>
    have hc := hidle (by simp [hr])
    obtain ⟨hinv, hpre⟩ := flush_inv himpl hv hi.1 hi.2.2
    exact ⟨hinv, ⟨by simp, by simp [hc], by simpa using he.marked⟩,
      ⟨hpre, by simp, by simp [hc], by simp [hr]⟩, by simp, by simp⟩
  | finDrain hr hq =>
    have hne : s.reader ≠ .returned := by simp [hr]
    exact .of_reader hi he (hidle hne) hne (fun _ => he.drained (Or.inl hr)) (by simp)
  | finAcked hr ha =>
    exact .of_place hi rfl rfl ⟨fun _ => he.drained (Or.inr (Or.inl hr)), by simp, by simp⟩ (by
      simp)
      (by simp [hr]) rfl (by simp)
  | finTimeout hr =>
    exact .of_place hi rfl rfl ⟨fun _ => he.drained (Or.inr (Or.inl hr)), by simp, by simp⟩ (by
      simp)
      (by simp [hr]) rfl (by simp)
  | readerQuit hq hd =>
    have hne : s.reader ≠ .returned := by
      intro hr
      simp [hr, Reader.quits] at hq
    exact .of_reader hi he (hidle hne) hne (by simp) (by simp)
  | timerFire ht => exact .of_place hi rfl rfl he id id rfl (by simp)
  | looseFire ht => exact .of_place hi rfl rfl he id id rfl (by simp)
  | timerRun hc =>
    have hb : Books rs cfg { s with callbacks := s.callbacks - 1 } := hi.1
    obtain ⟨hinv, hpre⟩ := flush_inv himpl hv hb hi.2.2
    exact ⟨hinv, ⟨by simp, by simpa using he.returned, by simpa using he.marked⟩,
      ⟨hpre, by simp, by simp, by simp⟩, by simp, by simp⟩
  | shaper e shaper run out hrun =>
    refine .of_place ⟨hi.1, hi.2.1, ?_⟩ rfl rfl he id id rfl ?_
    · intro a ha
      exact hi.2.2 a (Shaper.runStep_mem hrun a (Or.inr ha))
    · intro a ha
      exact .block (hi.2.2 a (Shaper.runStep_mem hrun a (Or.inl ha)))
  | closeSend hc => exact .of_closer hi he (by simp [hc]) (by simp) fun a => mem_sendPacketDirect.mp
  | closeMark hc => exact .of_closer hi he (by simp [hc]) (by simp) (by simp)
  | closeBoth hc => exact .of_closer hi he (by simp [hc]) (by simp) (by simp)
  | closeLoop hc => exact .of_closer hi he (by simp [hc]) (by simp) (by simp)
  | closeAnswered hc hr => exact .of_closer hi he (by simp [hc]) (by simp) (by simp)
  | closeAgain hc hr =>
    have hne : s.closer ≠ .idle := by simp [hc]
    exact .of_closer hi he hne hne fun a => mem_sendPacketDirect.mp
  | closeQuit hc hd => exact .of_closer hi he (by simp [hc]) (by simp) (by simp)

/-- An LQR changes the parity count within its bound, the shaper's parameters and
the list of open blocks. -/
theorem handleLQR_eq (cfg : Config) (s : Sender) (p : Packet) :
    ∃ m ok blocks size interval, s.handleLQR cfg p =
        { s with curM := m, consecutiveOk := ok, txBlocks := blocks
                 shaper := s.shaper.updateParams size interval } ∧
      (s.curM ≤ cfg.fecM → m ≤ cfg.fecM) := by
  have hsame : s = { s with
      curM := s.curM, consecutiveOk := s.consecutiveOk, txBlocks := s.txBlocks
      shaper := s.shaper.updateParams s.shaper.burstSize s.shaper.burstInterval } := rfl
  unfold handleLQR
  split
  · exact ⟨_, _, _, _, _, hsame, id⟩
  · split
    · exact ⟨_, _, _, _, _, hsame, id⟩
    · simp only
      split
      · split
        · split
          · exact ⟨s.curM - 1, 0, _, _, _, rfl, fun h => by omega⟩
          · exact ⟨_, 0, _, s.shaper.burstSize, s.shaper.burstInterval, rfl, id⟩
        · exact ⟨_, s.consecutiveOk + 1, _, s.shaper.burstSize, s.shaper.burstInterval, rfl, id⟩
      · have hle : (if p.losses.toNat + 1 > cfg.fecM then cfg.fecM else p.losses.toNat + 1) ≤
            cfg.fecM := by
          split <;> omega
        generalize (if p.losses.toNat + 1 > cfg.fecM then cfg.fecM else p.losses.toNat + 1) =
          newM at hle ⊢
        split
        · exact ⟨newM, 0, _, _, _, rfl, fun _ => hle⟩
        · exact ⟨_, 0, _, s.shaper.burstSize, s.shaper.burstInterval, rfl, id⟩

end Sender

/-! ## The steps of a session -/

theorem Receiver.handleLQRTimeout_out {cfg : Config} {r : Receiver} {g : UInt16} {a : Bytes}
    (ha : a ∈ (handleLQRTimeout cfg r g).out) :
    ∃ losses, marshal (lqrPacket cfg g losses) = .ok a := by
  unfold handleLQRTimeout at ha
  split at ha
  · cases ha
  · split at ha
    · cases ha
    · exact ⟨_, mem_sendPacketDirect.mp ha⟩

/-- The receiving half sends LQRs and NAKs only. -/
theorem Receiver.step_out {cfg : Config} {done closeRecv : Bool} {r : Receiver} {e : RxEvent}
    {eff : Effect Receiver} (h : r.step cfg done closeRecv e = some eff) {a : Bytes}
    (ha : a ∈ eff.out) :
    (∃ g losses, marshal (lqrPacket cfg g losses) = .ok a) ∨
    ∃ q, marshal (nakPacket cfg q) = .ok a := by
  cases e with
  | lqrRun g =>
    simp only [step, Option.ite_none_right_eq_some, Option.some.injEq] at h
    obtain ⟨-, rfl⟩ := h
    exact Or.inl ⟨g, handleLQRTimeout_out ha⟩
  | nakRun g =>
    simp only [step, Option.ite_none_right_eq_some, Option.some.injEq] at h
    obtain ⟨-, rfl⟩ := h
    unfold sendNakPeriodic at ha
    simp only at ha
    split at ha
    · cases ha
    · split at ha
      · cases ha
      · split at ha
        · cases ha
        · split at ha
          · obtain ⟨i, -, ha⟩ := List.mem_flatMap.mp ha
            exact Or.inr ⟨_, mem_sendPacketDirect.mp ha⟩
          · cases ha
  | report =>
    simp only [step, Option.ite_none_right_eq_some, Option.some.injEq] at h
    obtain ⟨-, rfl⟩ := h
    exact Or.inl ⟨_, handleLQRTimeout_out ha⟩
  | lqrFire g =>
    simp only [step] at h
    split at h
    · split at h <;> cases h
      cases ha
    · cases h
  | wait =>
    simp only [step, Option.ite_none_right_eq_some, Option.some.injEq] at h
    obtain ⟨-, rfl⟩ := h
    cases ha
  | slot =>
    simp only [step] at h
    split at h
    · split at h
      · split at h <;> cases h
        cases ha
      · cases h
        cases ha
    · cases h
  | slotError n =>
    simp only [step] at h
    split at h
    · split at h <;> cases h
      cases ha
    · cases h
  | cleanup =>
    simp only [step] at h
    split at h
    · split at h <;> cases h <;> cases ha
    · cases h
  | finish =>
    simp only [step, Option.ite_none_right_eq_some, Option.some.injEq] at h
    obtain ⟨-, rfl⟩ := h
    cases ha
  | leave =>
    simp only [step] at h
    split at h <;> cases h
    cases ha

namespace Session

variable {rs : ReedSolomon} {cfg : Config} {n : Nat} {code : Code UInt8 cfg.fecK n} {s : Session}

/-- What holds of a session's sending half between two steps. -/
structure TxInv (rs : ReedSolomon) (cfg : Config) (s : Session) : Prop where
  inv : s.tx.Inv rs cfg
  ends : Sender.Ends s.tx.pendingData s.tx.reader s.tx.closer s.tx.closeSent
  /-- a packet `HandleNak` is about to enqueue comes from the history -/
  retransmit : ∀ p, s.demux = .retransmit p → ∃ b, FromBlock cfg s.tx.sent b p
  closing : s.demux = .closing true → s.tx.closer ≠ .idle
  fresh : s.launched = false → s.tx.reader = .idle ∧ s.tx.closer = .idle

theorem newSession_txInv (rs : ReedSolomon) {cfg : Config} {n : Nat} (hv : cfg.Valid n) :
    (newSession cfg).TxInv rs cfg where
  inv := by
    refine ⟨⟨rfl, ?_, Nat.le_refl _, ?_, ?_, ⟨[], rfl, Nat.zero_le _, by simp, rfl⟩⟩, hv.one_le, ?_⟩
    · simp [newSession, newSender]
    · intro blk hblk
      cases hblk
    · intro q p
      simp [newSession, newSender]
    · intro a ha
      simp [newSession, newSender, newShaper, RunState.held] at ha
  ends :=
    ⟨by simp [newSession, newSender], by simp [newSession, newSender], by
      simp [newSession, newSender]⟩
  retransmit := by simp [newSession]
  closing := by simp [newSession]
  fresh := fun _ => ⟨rfl, rfl⟩

theorem TxInv.close (h : s.TxInv rs cfg) : s.close.TxInv rs cfg :=
  ⟨h.inv, h.ends, h.retransmit, h.closing, h.fresh⟩

theorem extends_close (s : Session) : Extends s.tx s.close.tx :=
  ⟨List.prefix_refl _, List.prefix_refl _, id, id⟩

theorem Cached.fromBlock {sent : List Block} {cache : Table UInt8 Packet}
    (h : Cached cfg sent cache) (hblocks : ∀ blk ∈ sent, Flushed rs cfg blk) {q : UInt8}
    {p : Packet} (hp : cache.lookup q = some p) :
    ∃ b, FromBlock cfg sent b p := by
  obtain ⟨b, blk, i, hb, hi, -, -, rfl⟩ := (h q p).mp hp
  obtain ⟨parityShards, hpar⟩ := (hblocks blk (List.mem_of_getElem? hb)).coded
  exact ⟨b, blk, hb, shardPacket_mem hi hpar⟩

theorem handle_tx (h : s.TxInv rs cfg) (p : Packet) :
    (s.handle rs cfg p).TxInv rs cfg ∧ Extends s.tx (s.handle rs cfg p).tx := by
  unfold handle
  split
  · exact ⟨⟨h.inv, h.ends, h.retransmit, h.closing, h.fresh⟩, .rfl⟩
  · split
    · rename_i cached hcached
      refine ⟨⟨h.inv, h.ends, ?_, by simp, h.fresh⟩, .rfl⟩
      intro p' hp'
      cases hp'
      exact Cached.fromBlock h.inv.1.cache h.inv.1.blocks hcached
    · exact ⟨h, .rfl⟩
  · obtain ⟨m, ok, blocks, size, interval, heq, hm⟩ := Sender.handleLQR_eq cfg s.tx p
    simp only [heq]
    have hb := h.inv.1
    exact ⟨⟨⟨⟨hb.group, hb.seq, hm hb.parity, hb.blocks, hb.cache, hb.reads⟩, h.inv.2.1, h.inv.2.2⟩,
      h.ends, h.retransmit, h.closing, h.fresh⟩, List.prefix_refl _, List.prefix_refl _, id, id⟩
  · refine ⟨⟨h.inv, h.ends, by simp, ?_, h.fresh⟩, List.prefix_refl _, List.prefix_refl _, id, id⟩
    simpa using h.ends.marked
  · exact ⟨h.close, extends_close s⟩
  · exact ⟨h, .rfl⟩

theorem finishHandler_tx (h : s.TxInv rs cfg) :
    s.finishHandler.TxInv rs cfg ∧ Extends s.tx s.finishHandler.tx := by
  unfold finishHandler
  split
  · exact ⟨h, .rfl⟩
  · rename_i p hp
    refine ⟨⟨⟨h.inv.1, h.inv.2.1, ?_⟩, h.ends, by simp, by simp, h.fresh⟩,
      List.prefix_refl _, List.prefix_refl _, id, id⟩
    obtain ⟨b, hb⟩ := h.retransmit p hp
    intro a ha
    rcases ha with ha | ha
    · exact h.inv.2.2 a (Or.inl ha)
    · rcases Shaper.mem_foldl_enqueue ha with ha | ha
      · exact h.inv.2.2 a (Or.inr ha)
      · exact ⟨b, p, hb, mem_sendPacketDirect.mp ha⟩
  · have hidle : TxInv rs cfg { s with demux := .idle } :=
      ⟨h.inv, h.ends, by simp, by simp, h.fresh⟩
    simp only
    split
    · exact ⟨hidle.close, extends_close _⟩
    · exact ⟨hidle, .rfl⟩

theorem step_tx (himpl : Implements rs code) (hv : cfg.Valid n) {e : SessionEvent} {s' : Session}
    {out : List Bytes} (hs : s.step rs cfg e = some (s', out)) (h : s.TxInv rs cfg) :
    s'.TxInv rs cfg ∧ Extends s.tx s'.tx ∧ ∀ a ∈ out, Emitted cfg s'.tx a := by
  have htx : ∀ {eff : Effect Sender}, s.launched = true → Sender.Sound rs cfg s.tx eff →
      TxInv rs cfg { s with tx := eff.state } := by
    intro eff hl hsound
    refine ⟨hsound.inv, hsound.ends, ?_, fun hd => hsound.history.closer (h.closing hd), by
      simp [hl]⟩
    intro p hp
    obtain ⟨b, hb⟩ := h.retransmit p hp
    exact ⟨b, hb.mono hsound.history.sent⟩
  cases stepped_of_step hs with
  | launch hl =>
    obtain ⟨hr, hc⟩ := h.fresh hl
    exact ⟨⟨h.inv, ⟨by simp [hc], by simp [hc], h.ends.marked⟩, h.retransmit, h.closing, by simp⟩,
      ⟨List.prefix_refl _, List.prefix_refl _, id, by simp [hr]⟩, by simp⟩
  | start hl hst => exact ⟨⟨h.inv, h.ends, h.retransmit, h.closing, h.fresh⟩, .rfl, by simp⟩
  | tx e eff hl hclose heff =>
    have hsound := heff.sound himpl hv h.inv h.ends
    exact ⟨htx hl hsound, hsound.history, hsound.out⟩
  | txClose e eff hl hclose heff =>
    have hsound := heff.sound himpl hv h.inv h.ends
    have hext := hsound.history
    exact ⟨(htx hl hsound).close, ⟨hext.sent, hext.tcpIn, hext.closer, hext.failed⟩,
      fun a ha => (hsound.out a ha).mono (extends_close { s with tx := eff.state })⟩
  | rx e eff heff =>
    refine ⟨⟨h.inv, h.ends, h.retransmit, h.closing, h.fresh⟩, .rfl, ?_⟩
    intro a ha
    rcases Receiver.step_out heff ha with ⟨g, losses, ha⟩ | ⟨q, ha⟩
    · exact .lqr g losses ha
    · exact .nak q ha
  | recv p hd =>
    obtain ⟨hinv, hext⟩ := handle_tx h p
    exact ⟨hinv, hext, by simp⟩
  | finishHandler hd =>
    obtain ⟨hinv, hext⟩ := finishHandler_tx h
    exact ⟨hinv, hext, by simp⟩
  | cancel => exact ⟨h.close, extends_close s, by simp⟩

end Session

/-! ## What the peer reads -/

section Read

variable {rs : ReedSolomon} {cfg : Config} {n : Nat} {code : Code UInt8 cfg.fecK n} {s : Sender}

theorem readUDP_short {p : Packet} {a : Bytes} (hm : marshal p = .ok a)
    (ht : p.type = .close ∨ p.type = .reset ∨ p.type = .nak ∨ p.type = .lqr ∨ p.type = .connAck) :
    readUDP a = unmarshal a := by
  rw [readUDP, List.take_of_length_le]
  exact Nat.le_trans (length_marshal_short hm ht) (by decide)

theorem readUDP_block (himpl : Implements rs code) (hv : cfg.Valid n) {sent : List Block}
    (hblocks : ∀ blk ∈ sent, Flushed rs cfg blk) {b : Nat} {p : Packet} {a : Bytes}
    (hp : FromBlock cfg sent b p) (ha : marshal p = .ok a) : readUDP a = .ok p := by
  obtain ⟨blk, hb, hp⟩ := hp
  have hfl := hblocks blk (List.mem_of_getElem? hb)
  have hm := hfl.m_le
  have hrows := hv.le_rows
  have hidx32 := hv.le_idx
  have hfits := hv.fits
  obtain ⟨hidx, -, hpay⟩ := packet_shard himpl hfl.toWF hv.one_le (by omega) (by omega) hp
  obtain ⟨parityShards, i, -, -, -, hpkt⟩ := mem_packetsAt hp
  have ht : p.type = .data := by rw [hpkt]
  have hlen : p.payload.length ≤ maxPayload cfg + 2 := by
    rw [hpay]
    exact Nat.le_trans (padded_slot hfl.length_data (Or.inl rfl)).1 (maxLen_le hfl.short)
  rw [readUDP, List.take_of_length_le (by rw [length_marshal_data ha ht]; omega),
    unmarshal_marshal_data_whole ha ht hidx, hpkt]

/-- What the peer can read from a datagram that a session has sent. -/
theorem Emitted.read (himpl : Implements rs code) (hv : cfg.Valid n) (hi : s.Inv rs cfg) {a : Bytes}
    (ha : Emitted cfg s a) :
    ∃ p, readUDP a = .ok p ∧ p.streamID = cfg.streamID ∧
      ((∃ b, FromBlock cfg s.sent b p) ∨ (p.type = .close ∧ s.closer ≠ .idle) ∨
        (p.type = .reset ∧ s.reader = .returned ∧ s.closer = .idle) ∨ p.type = .lqr ∨
        p.type = .nak) := by
  cases ha with
  | block h =>
    obtain ⟨b, p, hp, ha⟩ := h
    refine ⟨p, readUDP_block himpl hv hi.1.blocks hp ha, ?_, Or.inl ⟨b, hp⟩⟩
    obtain ⟨blk, -, hp⟩ := hp
    obtain ⟨parityShards, i, -, -, -, hpkt⟩ := mem_packetsAt hp
    rw [hpkt]
  | close h ha =>
    refine ⟨Sender.closePacket cfg, ?_, rfl, Or.inr (Or.inl ⟨rfl, h⟩)⟩
    rw [readUDP_short ha (Or.inl rfl)]
    exact unmarshal_marshal_base (by simp) ha
  | reset h ha =>
    refine ⟨Sender.resetPacket cfg, ?_, rfl, Or.inr (Or.inr (Or.inl ⟨rfl, h⟩))⟩
    rw [readUDP_short ha (Or.inr (Or.inl rfl))]
    exact unmarshal_marshal_base (by simp) ha
  | lqr g losses ha =>
    refine ⟨Receiver.lqrPacket cfg g losses, ?_, rfl, by simp [Receiver.lqrPacket]⟩
    rw [readUDP_short ha (by simp [Receiver.lqrPacket])]
    exact unmarshal_marshal_lqr ha
  | nak q ha =>
    refine ⟨Receiver.nakPacket cfg q, ?_, rfl, by simp [Receiver.nakPacket]⟩
    rw [readUDP_short ha (by simp [Receiver.nakPacket])]
    exact unmarshal_marshal_nak ha

end Read

end TcpPep
