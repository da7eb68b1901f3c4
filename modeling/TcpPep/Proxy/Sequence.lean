import TcpPep.Proxy.Repair
import TcpPep.Proxy.Window

/-!
The counters of the sending half.

The sender numbers data packets with a byte that it counts up, and blocks with a
16-bit GroupID. The receiver computes the sequence numbers of a block from its GroupID
alone. Nothing is assumed of the encoder here, nor of the parameters: a flush may fail.

* `Sender.Turn`: what a step can do to the books of a sending half, and
  `Session.step_turn`, that it does nothing else;
* `Sender.Counted`: the counters and the cache against the history;
* `seqNums_agree`: the number stamped on a data packet is the one the receiver computes,
  and the cache keeps the packet until the 256th data packet after it.
-/

namespace TcpPep

open Protocol Fec FiniteMap Events

/-! ## What a step does to the books -/

namespace Sender

/-- The fields that only reads and flushes change. -/
structure SameBooks (s s' : Sender) : Prop where
  group : s'.nextGroupID = s.nextGroupID
  seq : s'.nextSeqNum = s.nextSeqNum
  pending : s'.pendingData = s.pendingData
  cache : s'.harqCache = s.harqCache
  tcpIn : s'.tcpIn = s.tcpIn
  sent : s'.sent = s.sent

theorem SameBooks.rfl {s : Sender} : SameBooks s s :=
  ⟨Eq.refl _, Eq.refl _, Eq.refl _, Eq.refl _, Eq.refl _, Eq.refl _⟩

section Flush

variable {rs : ReedSolomon} {cfg : Config} {s : Sender}

/-- A flush whose encoding fails: the GroupID is taken and the reads are dropped. -/
theorem flush_fail (hne : s.pendingData ≠ [])
    (henc : Fec.encode rs cfg.fecK s.curM (s.paddedPending cfg) = none) :
    s.flushPendingBlockLocked rs cfg =
      { s with
        nextGroupID := s.nextGroupID + 1, pendingData := [],
        sent := s.sent ++ [s.nextBlock rs cfg] } := by
  have he : s.pendingData.isEmpty = false := by simpa using hne
  simp only [flushPendingBlockLocked, he, Bool.false_eq_true, ↓reduceIte, henc, nextBlock]

/-- A flush adds its block to the history, failed or not. -/
theorem flush_sent (hne : s.pendingData ≠ []) :
    (s.flushPendingBlockLocked rs cfg).sent = s.sent ++ [s.nextBlock rs cfg] := by
  cases henc : Fec.encode rs cfg.fecK s.curM (s.paddedPending cfg) with
  | none => rw [flush_fail hne henc]
  | some parityShards => rw [flush_eq hne henc]

end Flush

/-- What a step can do to the books of a sending half: nothing, one more read, a read that
fills the block, or a flush by a timer or at the end of the stream. -/
inductive Turn (rs : ReedSolomon) (cfg : Config) (s s' : Sender) : Prop
  | same (h : SameBooks s s')
  | read (data : Bytes) (hne : data ≠ []) (hle : data.length ≤ maxPayload cfg)
      (hshort : s.pendingData.length + 1 < cfg.fecK) (timer : BlockTimer) (loose : Nat)
      (h : s' = { s.append data timer loose with reader := .check })
  | full (data : Bytes) (hne : data ≠ []) (hle : data.length ≤ maxPayload cfg)
      (hfull : cfg.fecK ≤ s.pendingData.length + 1) (loose : Nat)
      (h : s' = { (s.append data .unset loose).flushPendingBlockLocked rs cfg with reader := .check
        })
  | flush (callbacks : Nat) (reader : Reader)
      (h : s' = { ({ s with callbacks } : Sender).flushPendingBlockLocked rs cfg with reader })

variable {rs : ReedSolomon} {cfg : Config} {s s' : Sender}

theorem readTCP_turn {data : Bytes} (hne : data ≠ []) (hle : data.length ≤ maxPayload cfg) :
    Turn rs cfg s { s.readTCP rs cfg data with reader := .check } := by
  obtain ⟨timer, loose, heq⟩ := readTCP_eq rs cfg s data
  rw [heq]
  split
  · rename_i hshort
    exact .read data hne hle hshort timer loose rfl
  · rename_i hfull
    exact .full data hne hle (by omega) loose rfl

/-- **Step lemma.** A step that calls `Close` leaves the books alone. -/
theorem Stepped.turn {done : Bool} {e : TxEvent} {eff : Effect Sender}
    (h : Stepped rs cfg done s e eff) :
    Turn rs cfg s eff.state ∧ (eff.close = true → SameBooks s eff.state) := by
  cases h with
  | read data hr hne hle => exact ⟨readTCP_turn hne hle, by simp⟩
  | finFlush hr hd => exact ⟨.flush s.callbacks .finDrain rfl, by simp⟩
  | timerRun hc =>
    refine ⟨.flush (s.callbacks - 1) s.reader ?_, by simp⟩
    have hreader := flush_reader rs cfg { s with callbacks := s.callbacks - 1 }
    generalize ({ s with callbacks := s.callbacks - 1 } : Sender).flushPendingBlockLocked rs cfg =
      t at hreader ⊢
    cases t
    simp only at hreader ⊢
    rw [hreader]
  | _ => exact ⟨.same ⟨rfl, rfl, rfl, rfl, rfl, rfl⟩, fun _ => ⟨rfl, rfl, rfl, rfl, rfl, rfl⟩⟩

end Sender

namespace Session

variable {rs : ReedSolomon} {cfg : Config} {s s' : Session}

theorem handle_sameBooks (p : Packet) : Sender.SameBooks s.tx (s.handle rs cfg p).tx := by
  unfold handle
  split
  · exact .rfl
  · split <;> exact .rfl
  · obtain ⟨m, ok, blocks, size, interval, heq, -⟩ := Sender.handleLQR_eq cfg s.tx p
    rw [heq]
    exact ⟨rfl, rfl, rfl, rfl, rfl, rfl⟩
  · exact ⟨rfl, rfl, rfl, rfl, rfl, rfl⟩
  · exact ⟨rfl, rfl, rfl, rfl, rfl, rfl⟩
  · exact .rfl

theorem finishHandler_sameBooks : Sender.SameBooks s.tx s.finishHandler.tx := by
  unfold finishHandler
  split
  · exact .rfl
  · exact ⟨rfl, rfl, rfl, rfl, rfl, rfl⟩
  · simp only
    split <;> exact ⟨rfl, rfl, rfl, rfl, rfl, rfl⟩

theorem step_turn {e : SessionEvent} {out : List Bytes} (hs : s.step rs cfg e = some (s', out)) :
    Sender.Turn rs cfg s.tx s'.tx := by
  cases stepped_of_step hs with
  | tx e eff hl hclose heff => exact heff.turn.1
  | txClose e eff hl hclose heff =>
    obtain ⟨hgroup, hseq, hpending, hcache, htcp, hsent⟩ := heff.turn.2 hclose
    exact .same ⟨hgroup, hseq, hpending, hcache, htcp, hsent⟩
  | recv p hd => exact .same (handle_sameBooks p)
  | finishHandler hd => exact .same finishHandler_sameBooks
  | _ => exact .same ⟨rfl, rfl, rfl, rfl, rfl, rfl⟩

end Session

/-! ## Over a run -/

section Run

variable {rs : ReedSolomon} {cfg : Config} {s s' : Session}

/-- **Run lemma.** What every turn keeps holds in every state of a session. -/
theorem turn_invariant {I : Sender → Prop} (hinit : I s.tx)
    (hturn : ∀ t t', I t → Sender.Turn rs cfg t t' → I t') {ok : Session → SessionEvent → Prop}
    (hr : Reach { session rs cfg with init := s } ok s') : I s'.tx := by
  refine session_run (I := fun s => I s.tx) hinit ?_ hr
  intro s₁ e s₂ out h _ hs
  exact hturn _ _ h (Session.step_turn hs)

/-- The history only grows. -/
theorem Sender.Turn.history {t t' : Sender} (h : Turn rs cfg t t') : t.sent <+: t'.sent := by
  have hflush : ∀ u : Sender, u.sent <+: (u.flushPendingBlockLocked rs cfg).sent := by
    intro u
    by_cases hne : u.pendingData = []
    · rw [flush_of_empty hne]
    · rw [flush_sent hne]
      exact List.prefix_append _ _
  cases h with
  | same h => rw [h.sent]
  | read data hne hle hshort timer loose h => rw [h]; exact List.prefix_refl _
  | full data hne hle hfull loose h => rw [h]; exact hflush (t.append data .unset loose)
  | flush callbacks reader h => rw [h]; exact hflush { t with callbacks }

theorem history_of_reach {ok : Session → SessionEvent → Prop}
    (hr : Reach { session rs cfg with init := s } ok s') :
    s.tx.sent <+: s'.tx.sent :=
  turn_invariant (I := fun t => s.tx.sent <+: t.sent) (List.prefix_refl _)
    (fun _ _ h ht => h.trans ht.history) hr

end Run

/-! ## The counters -/

/-- No flush of a history has failed. -/
def Coded (sent : List Block) : Prop := ∀ blk ∈ sent, blk.parity ≠ none

instance (sent : List Block) : Decidable (Coded sent) :=
  inferInstanceAs (Decidable (∀ blk ∈ sent, blk.parity ≠ none))

/-- The number of blocks that were sent. -/
def transmitted (sent : List Block) : Nat := sent.countP fun blk => blk.parity.isSome

theorem transmitted_append (sent : List Block) (blk : Block) :
    transmitted (sent ++ [blk]) = transmitted sent + if blk.parity.isSome then 1 else 0 := by
  simp [transmitted, List.countP_append, List.countP_singleton]

theorem transmitted_of_coded {sent : List Block} (h : Coded sent) :
    transmitted sent = sent.length := by
  rw [transmitted, List.countP_eq_length]
  intro blk hblk
  exact Option.isSome_iff_ne_none.mpr (h blk hblk)

namespace Sender

variable {rs : ReedSolomon} {cfg : Config} {s s' : Sender}

/-- The counters and the cache of a sending half against its history. -/
structure Counted (cfg : Config) (s : Sender) : Prop where
  group : s.nextGroupID = UInt16.ofNat s.sent.length
  seq : s.nextSeqNum = UInt8.ofNat (transmitted s.sent * cfg.fecK)
  cache : cfg.fecK ≤ 256 → Coded s.sent → Cached cfg s.sent s.harqCache

theorem counted_new (cfg : Config) : (newSender cfg).Counted cfg where
  group := rfl
  seq := by simp [newSender, transmitted]
  cache := by
    intro _ _ q p
    simp [newSender]

theorem Counted.of_same (h : s.Counted cfg) (hsame : SameBooks s s') : s'.Counted cfg where
  group := by rw [hsame.group, hsame.sent, h.group]
  seq := by rw [hsame.seq, hsame.sent, h.seq]
  cache := by rw [hsame.sent, hsame.cache]; exact h.cache

theorem Counted.group_succ (h : s.Counted cfg) (blk : Block) :
    s.nextGroupID + 1 = UInt16.ofNat (s.sent ++ [blk]).length := by
  rw [h.group, List.length_append, List.length_singleton, UInt16.ofNat_add]
  rfl

/-- While no flush has failed, `nextSeqNum` counts the data packets of all blocks. -/
theorem Counted.seq_coded (h : s.Counted cfg) (hcoded : Coded s.sent) :
    s.nextSeqNum = UInt8.ofNat (s.sent.length * cfg.fecK) := by
  rw [h.seq, transmitted_of_coded hcoded]

/-- **Step lemma for a flush**, failed or not. -/
theorem Counted.flush (h : s.Counted cfg) : (s.flushPendingBlockLocked rs cfg).Counted cfg := by
  by_cases hne : s.pendingData = []
  · rw [flush_of_empty hne]
    exact h
  · cases henc : Fec.encode rs cfg.fecK s.curM (s.paddedPending cfg) with
    | none =>
      have hpar : (s.nextBlock rs cfg).parity = none := henc
      rw [flush_fail hne henc]
      refine ⟨h.group_succ _, ?_, ?_⟩
      · simp [transmitted_append, hpar, h.seq]
      · intro _ hcoded
        exact absurd hpar (hcoded _ (by simp))
    | some parityShards =>
      have hpar : (s.nextBlock rs cfg).parity = some parityShards := henc
      rw [flush_eq hne henc]
      refine ⟨h.group_succ _, ?_, ?_⟩
      · simp [transmitted_append, hpar, h.seq, Nat.add_mul, UInt8.ofNat_add]
      · intro hK hcoded
        have hold : Coded s.sent := fun blk hblk => hcoded blk (List.mem_append_left _ hblk)
        have hcached := (h.cache hK hold).flush hK (s.nextBlock rs cfg)
        rw [← dataPackets_eq, ← h.group, ← h.seq_coded hold] at hcached
        exact hcached

theorem Counted.turn (h : s.Counted cfg) (ht : Turn rs cfg s s') : s'.Counted cfg := by
  cases ht with
  | same hsame => exact h.of_same hsame
  | read data hne hle hshort timer loose heq =>
    rw [heq]
    exact ⟨h.group, h.seq, h.cache⟩
  | full data hne hle hfull loose heq =>
    have happ : (s.append data .unset loose).Counted cfg := ⟨h.group, h.seq, h.cache⟩
    rw [heq]
    exact (@Counted.flush rs cfg _ happ).of_same ⟨rfl, rfl, rfl, rfl, rfl, rfl⟩
  | flush callbacks reader heq =>
    have hcb : Counted cfg { s with callbacks } := ⟨h.group, h.seq, h.cache⟩
    rw [heq]
    exact (@Counted.flush rs cfg _ hcb).of_same ⟨rfl, rfl, rfl, rfl, rfl, rfl⟩

end Sender

theorem counted_of_reach {rs : ReedSolomon} {cfg : Config} {ok : Session → SessionEvent → Prop}
    {s : Session} (hr : Reach (session rs cfg) ok s) : s.tx.Counted cfg :=
  @turn_invariant rs cfg (newSession cfg) s (Sender.Counted cfg) (Sender.counted_new cfg)
    (fun _ _ h => h.turn) ok hr

/-! ## Sender and receiver agree -/

section Agreement

variable {rs : ReedSolomon} {cfg : Config}

theorem Sender.Turn.grown {s s' : Sender} (h : Turn rs cfg s s') (hne : s'.sent ≠ s.sent) :
    ∃ blk, s'.sent = s.sent ++ [blk] := by
  have hflush : ∀ t : Sender, t.sent = s.sent → s'.sent = (t.flushPendingBlockLocked rs cfg).sent →
      ∃ blk, s'.sent = s.sent ++ [blk] := by
    intro t ht heq
    by_cases hnil : t.pendingData = []
    · rw [flush_of_empty hnil, ht] at heq
      exact absurd heq hne
    · rw [flush_sent hnil, ht] at heq
      exact ⟨_, heq⟩
  cases h with
  | same h => exact absurd h.sent hne
  | read data hne' hle hshort timer loose h => exact absurd (by rw [h]; rfl) hne
  | full data hne' hle hfull loose h => exact hflush (s.append data .unset loose) rfl (by rw [h])
  | flush callbacks reader h => exact hflush { s with callbacks } rfl (by rw [h])

/-- The sender a block was flushed from, with the counters and the shaper of the state before. -/
theorem Sender.Turn.flushed {s s' : Sender} {blk : Block} (h : Turn rs cfg s s')
    (hsent : s'.sent = s.sent ++ [blk]) :
    ∃ t : Sender, t.pendingData ≠ [] ∧ blk = t.nextBlock rs cfg ∧ t.nextGroupID = s.nextGroupID ∧
      t.nextSeqNum = s.nextSeqNum ∧ t.curM = s.curM ∧ t.shaper = s.shaper ∧
      s'.shaper = (t.flushPendingBlockLocked rs cfg).shaper ∧
      SameBooks (t.flushPendingBlockLocked rs cfg) s' := by
  have hgrown : ∀ t : Sender, t.sent = s.sent → s'.sent = (t.flushPendingBlockLocked rs cfg).sent →
      t.pendingData ≠ [] ∧ blk = t.nextBlock rs cfg := by
    intro t ht heq
    have hne : t.pendingData ≠ [] := by
      intro hnil
      rw [flush_of_empty hnil, hsent, ht] at heq
      simp at heq
    rw [flush_sent hne, hsent, ht] at heq
    exact ⟨hne, by simpa using heq⟩
  cases h with
  | same h =>
    rw [h.sent] at hsent
    simp at hsent
  | read data hne hle hshort timer loose h =>
    rw [h] at hsent
    simp [append] at hsent
  | full data hne hle hfull loose h =>
    obtain ⟨hpend, hblk⟩ := hgrown (s.append data .unset loose) rfl (by rw [h])
    rw [h]
    exact ⟨s.append data .unset loose, hpend, hblk, rfl, rfl, rfl, rfl, rfl,
      ⟨rfl, rfl, rfl, rfl, rfl, rfl⟩⟩
  | flush callbacks reader h =>
    obtain ⟨hpend, hblk⟩ := hgrown { s with callbacks } rfl (by rw [h])
    rw [h]
    exact ⟨{ s with callbacks }, hpend, hblk, rfl, rfl, rfl, rfl, rfl,
      ⟨rfl, rfl, rfl, rfl, rfl, rfl⟩⟩

/-- A flush that succeeds hands its data and parity packets to the shaper, under the counters
of the state before. -/
theorem Sender.Turn.enqueued {s s' : Sender} {blk : Block} (h : Turn rs cfg s s')
    (hsent : s'.sent = s.sent ++ [blk]) {parityShards : List Bytes}
    (hpar : blk.parity = some parityShards) :
    blk.m = s.curM ∧
      s'.shaper = s.shaper.enqueueMany ((dataPackets cfg s.nextGroupID s.nextSeqNum blk.data ++
        parityPackets cfg s.nextGroupID blk.m parityShards).flatMap sendPacketDirect) := by
  obtain ⟨t, hne, rfl, hgroup, hseq, hm, hshaper, hs', -⟩ := h.flushed hsent
  have hdatagrams : t.nextDatagrams rs cfg =
      (dataPackets cfg t.nextGroupID t.nextSeqNum (t.nextBlock rs cfg).data ++
        parityPackets cfg t.nextGroupID (t.nextBlock rs cfg).m parityShards).flatMap
          sendPacketDirect := by
    rw [nextDatagrams, Block.packetsAt, hpar]
  refine ⟨hm, ?_⟩
  rw [hs', flush_eq hne hpar, ← hgroup, ← hseq, ← hshaper]
  exact congrArg t.shaper.enqueueMany hdatagrams

/-- The packet the cache holds in the place of one that is too old: the last one with its number. -/
theorem Cached.replaced {sent : List Block} {cache : Table UInt8 Packet} (h : Cached cfg sent cache)
    {pos : Nat} (hold : pos + 256 < sent.length * cfg.fecK) :
    ∃ b blk i, sent[b]? = some blk ∧ i < cfg.fecK ∧ pos + 256 ≤ b * cfg.fecK + i ∧
      cache.lookup (UInt8.ofNat pos) = some (shardPacket cfg b blk i) := by
  have hK : 0 < cfg.fecK := Nat.pos_of_ne_zero fun hz => by simp [hz] at hold
  obtain ⟨last, hlast, hge, hlt, hmod⟩ : ∃ last, last < sent.length * cfg.fecK ∧ pos + 256 ≤ last ∧
      sent.length * cfg.fecK ≤ last + 256 ∧ pos % 256 = last % 256 := by
    refine ⟨pos + 256 * ((sent.length * cfg.fecK - 1 - pos) / 256), ?_, ?_, ?_, ?_⟩ <;> omega
  have hb : last / cfg.fecK < sent.length := Nat.div_lt_of_lt_mul (by rwa [Nat.mul_comm])
  have hpos : last / cfg.fecK * cfg.fecK + last % cfg.fecK = last := Nat.div_add_mod' last cfg.fecK
  have hblk := List.getElem?_eq_getElem hb
  refine ⟨last / cfg.fecK, sent[last / cfg.fecK], last % cfg.fecK, hblk, Nat.mod_lt _ hK, by omega,
    ?_⟩
  exact (h _ _).mpr ⟨_, _, _, hblk, Nat.mod_lt _ hK, by omega, by rw [hpos, ofNat8_eq_iff, hmod],
    rfl⟩

theorem numbered_of_session {ok : Session → SessionEvent → Prop} {s : Session}
    (hr : Reach (session rs cfg) ok s) :
    Numbered cfg s.rx :=
  session_run (I := fun s => Numbered cfg s.rx) (numbered_new cfg)
    (fun _ _ _ _ h _ hs => h.session hs) hr

theorem newRxBlock_seqNums (b : Nat) {i : Nat} (hi : i < cfg.fecK) :
    (newRxBlock cfg (UInt16.ofNat b)).seqNums[i]? = some (UInt8.ofNat (b * cfg.fecK + i)) := by
  have hlt : i < (newRxBlock cfg (UInt16.ofNat b)).seqNums.length := by simpa [newRxBlock] using hi
  rw [← newRxBlock_seqNum cfg b hi, List.getD_eq_getElem?_getD, List.getElem?_eq_getElem hlt,
    Option.getD_some]

end Agreement

/-- **Sequence numbers.** A flush of any session, after any number of blocks, numbers its data
packets as every receiver with the same `K` numbers the slots of that group, whether the
block was set up by a packet or by `Start`. From then on the cache holds the packet under its
number, until exactly the flush that sends the 256th data packet after it; then it
holds a later one. -/
theorem seqNums_agree {rs rs' : ReedSolomon} {cfg rcfg : Config} (h32 : cfg.fecK ≤ 32)
    (hk : rcfg.fecK = cfg.fecK) {s s' : Session} {e : SessionEvent}
    (hr : Reach (session rs cfg) (fun _ _ => True) s) (hs : (session rs cfg).step s e = some s')
    {blk : Block} (hflush : s'.tx.sent = s.tx.sent ++ [blk]) (hcoded : Coded s'.tx.sent) :
    (∃ parityPkts,
      s'.tx.shaper = s.tx.shaper.enqueueMany
      ((dataPackets cfg s.tx.nextGroupID s.tx.nextSeqNum blk.data ++ parityPkts).flatMap
        sendPacketDirect)) ∧
    ∀ i < cfg.fecK, ∃ p,
      (dataPackets cfg s.tx.nextGroupID s.tx.nextSeqNum blk.data)[i]? = some p ∧
      p.groupID = UInt16.ofNat s.tx.sent.length ∧
      (newRxBlock rcfg p.groupID).seqNums[i]? = some p.seqNum ∧
      (p.groupID = 0 → (startRxBlock rcfg).seqNums[i]? = some p.seqNum) ∧
      (∀ r, Reach (session rs' rcfg) (fun _ _ => True) r →
        ∀ b, r.rx.rxBlocks.lookup p.groupID = some b → b.seqNums[i]? = some p.seqNum) ∧
      ∀ t, Reach { session rs cfg with init := s' } (fun _ _ => True) t → Coded t.tx.sent →
        (t.tx.sent.length * cfg.fecK ≤ s.tx.sent.length * cfg.fecK + i + 256 →
          t.tx.harqCache.lookup p.seqNum = some p) ∧
        (s.tx.sent.length * cfg.fecK + i + 256 < t.tx.sent.length * cfg.fecK →
          ∃ b' blk' i', t.tx.sent[b']? = some blk' ∧ i' < cfg.fecK ∧
            s.tx.sent.length * cfg.fecK + i + 256 ≤ b' * cfg.fecK + i' ∧
            t.tx.harqCache.lookup p.seqNum = some (shardPacket cfg b' blk' i')) := by
  obtain ⟨⟨_, out⟩, hstep, rfl⟩ := Option.map_eq_some_iff.mp hs
  have hturn := Session.step_turn hstep
  have hcount := counted_of_reach hr
  have hbefore : Coded s.tx.sent := by
    intro b hb
    exact hcoded b (by rw [hflush]; exact List.mem_append_left _ hb)
  constructor
  · obtain ⟨parityShards, hpar⟩ := Option.ne_none_iff_exists'.mp (hcoded blk (by rw [hflush]; simp))
    exact ⟨_, (hturn.enqueued hflush hpar).2⟩
  · intro i hi
    have hseq : (newRxBlock rcfg (UInt16.ofNat s.tx.sent.length)).seqNums[i]? =
        some (UInt8.ofNat (s.tx.sent.length * cfg.fecK + i)) := by
      rw [newRxBlock_seqNums _ (by omega), hk]
    refine ⟨shardPacket cfg s.tx.sent.length blk i, ?_, rfl, hseq, ?_, ?_, ?_⟩
    · rw [hcount.group, hcount.seq_coded hbefore, dataPackets_eq]
      simp [hi]
    · intro hzero
      rw [startRxBlock_eq, ← hzero]
      exact hseq
    · intro r hr' b hb
      rw [numbered_of_session hr' _ b hb]
      exact hseq
    · intro t ht htcoded
      have hcache := (counted_of_reach ((hr.step trivial hs).trans ht)).cache (by omega) htcoded
      obtain ⟨rest, hrest⟩ := history_of_reach ht
      have hblk : t.tx.sent[s.tx.sent.length]? = some blk := by
        rw [← hrest, hflush]
        simp
      constructor
      · intro hwin
        exact (hcache _ _).mpr ⟨_, blk, i, hblk, hi, hwin, rfl, rfl⟩
      · intro hold
        exact hcache.replaced hold

/-- Two reads fill block 0: the second data packet has the number the receiver computes for slot 1.
-/
theorem seqNums_agree_small :
    ∃ s s' p, Reach (session reedSolomonTwoOne smallConfig) (fun _ _ => True) s ∧
      (session reedSolomonTwoOne smallConfig).step s (.tx (.read [9])) = some s' ∧
      p.groupID = 0 ∧ (startRxBlock smallConfig).seqNums[1]? = some p.seqNum ∧
      s'.tx.harqCache.lookup p.seqNum = some p := by
  obtain ⟨s, s', hr, hs, hnil, hlen, hcoded⟩ : ∃ s s',
      Reach (session reedSolomonTwoOne smallConfig) (fun _ _ => True) s ∧
      (session reedSolomonTwoOne smallConfig).step s (.tx (.read [9])) = some s' ∧
      s.tx.sent = [] ∧ s'.tx.sent.length = 1 ∧ Coded s'.tx.sent :=
    Reach.exists_step_of_runOk _ [.launch, .tx .check, .tx (.read [7]), .tx .check] _ (by
      decide +kernel)
  obtain ⟨blk, hblk⟩ := List.length_eq_one_iff.mp hlen
  obtain ⟨p, -, hgroup, -, hstart, -, hcache⟩ :=
    (@seqNums_agree reedSolomonTwoOne reedSolomonTwoOne smallConfig smallConfig (by
      decide) rfl s s' _ hr hs blk
      (by rw [hnil, hblk]; rfl) hcoded).2 1 (by decide)
  have hzero : p.groupID = 0 := by rw [hgroup, hnil]; rfl
  exact ⟨s, s', p, hr, hs, hzero, hstart hzero,
    (hcache s' .init hcoded).1 (by rw [hlen, hnil]; decide)⟩

end TcpPep
