import TcpPep.Proxy.Aliasing
import TcpPep.Proxy.Horizon

/-!
The repair loop: NAKs against the cache, and holes against the entries.

* `nak_finds_shard`: a NAK gets the shard it asks for exactly while that shard is
  one of the last 256 data packets flushed;
* `nak_finds_other_block`: after 129 blocks of two shards a NAK for block 0 gets a
  shard of block 128;
* `watched_of_reach`: every entry that is not decoded has its LQR timer or its NAK
  check pending;
* `holes_watched`: while no block is skipped by the arrivals, every group up to
  `maxRecvGrp` has such an entry;
* `hole_unknown`: a block all of whose packets are lost has none.
-/

namespace TcpPep

open Protocol Fec FiniteMap ErasureCode Events

/-! ## Sequence numbers -/

namespace RxBlock

theorem store_frame (b : RxBlock) (idx : Nat) (payload : Bytes) :
    (b.store idx payload).seqNums = b.seqNums ∧ (b.store idx payload).lqrTimer = b.lqrTimer ∧
      (b.store idx payload).lqrReported = b.lqrReported := by
  unfold store
  simp only
  split
  all_goals split <;> exact ⟨rfl, rfl, rfl⟩

theorem tryDecodeBlock_frame (rs : ReedSolomon) (b : RxBlock) :
    (b.tryDecodeBlock rs).seqNums = b.seqNums ∧ (b.tryDecodeBlock rs).lqrTimer = b.lqrTimer ∧
      (b.tryDecodeBlock rs).lqrReported = b.lqrReported := by
  unfold tryDecodeBlock
  simp only
  split
  · exact ⟨rfl, rfl, rfl⟩
  · split
    · exact ⟨rfl, rfl, rfl⟩
    · split <;> exact ⟨rfl, rfl, rfl⟩

theorem receive_frame (rs : ReedSolomon) (b : RxBlock) (p : Packet) :
    (b.receive rs p).seqNums = b.seqNums ∧ (b.receive rs p).lqrTimer = b.lqrTimer ∧
      (b.receive rs p).lqrReported = b.lqrReported := by
  obtain ⟨hq, ht, hr⟩ := b.store_frame p.idx.toNat p.payload
  unfold receive
  simp only
  split
  · obtain ⟨hq', ht', hr'⟩ := (b.store p.idx.toNat p.payload).tryDecodeBlock_frame rs
    exact ⟨hq'.trans hq, ht'.trans ht, hr'.trans hr⟩
  · exact ⟨hq, ht, hr⟩

end RxBlock

/-- Every entry carries the sequence numbers computed from its group. -/
def Numbered (cfg : Config) (r : Receiver) : Prop :=
  ∀ g e, r.rxBlocks.lookup g = some e → e.seqNums = (newRxBlock cfg g).seqNums

section Numbered

variable {rs : ReedSolomon} {cfg : Config} {r r' : Receiver}

theorem Numbered.of_sameCores (h : Numbered cfg r) {t : Table UInt16 RxBlock}
    (hs : SameCores r.rxBlocks t) :
    ∀ g e, t.lookup g = some e → e.seqNums = (newRxBlock cfg g).seqNums := by
  intro g e' he'
  obtain ⟨e, he, hcore⟩ := hs.lookup he'
  rw [(RxBlock.core_fields hcore).2.2.2.2]
  exact h g e he

theorem Numbered.move {done closeRecv : Bool} (hm : Receiver.Move done closeRecv r r')
    (h : Numbered cfg r) :
    Numbered cfg r' := by
  cases hm with
  | timers t cbs naks hsame => exact h.of_sameCores hsame
  | unreported t hw hsame => exact h.of_sameCores hsame
  | reported t naks hw hsame => exact h.of_sameCores hsame
  | advance t hw hsame =>
    intro g e he
    change (t.erase r.nextWriteGrp).lookup g = some e at he
    rw [lookup_erase_eq] at he
    split at he
    · cases he
    · exact h.of_sameCores hsame g e he
  | _ => exact h

theorem Numbered.recv (h : Numbered cfg r) (p : Packet) :
    Numbered cfg (r.handleDataPacket rs cfg p) := by
  obtain ⟨top, has, hnote⟩ := r.noteGroup_eq p.groupID
  have hin := r.handleDataPacket_intake rs cfg p
  generalize r.handleDataPacket rs cfg p = r' at hin
  cases hin with
  | closed => exact h
  | old =>
    rw [hnote]
    exact h
  | take =>
    rw [hnote]
    intro g e he
    simp only [lookup_insert_eq] at he
    split at he
    · rename_i hg
      cases he
      rw [(RxBlock.receive_frame rs _ p).1, hg, Receiver.blockFor]
      cases hb : r.rxBlocks.lookup p.groupID with
      | none => rfl
      | some b => exact h _ b hb
    · exact h g e he

theorem Numbered.start (h : Numbered cfg r) : Numbered cfg (Receiver.startInit cfg r) := by
  unfold Receiver.startInit
  split
  · intro g e he
    simp only [lookup_insert_eq] at he
    split at he
    · rename_i hg
      cases he
      rw [startRxBlock_eq, hg]
    · exact h g e he
  · exact h

theorem numbered_new (cfg : Config) : Numbered cfg (newSession cfg).rx := by
  intro g e he
  simp [newSession] at he

theorem Numbered.session {s s' : Session} {ev : SessionEvent} {out : List Bytes}
    (h : Numbered cfg s.rx) (hs : s.step rs cfg ev = some (s', out)) : Numbered cfg s'.rx := by
  obtain ⟨hchange, -⟩ := Session.step_rxChange hs
  generalize s'.rx = r' at hchange ⊢
  cases hchange with
  | same => exact h
  | launch => exact h
  | start => exact h.start
  | step ev eff heff => exact h.move (Receiver.step_move heff)
  | data p ht => exact h.recv p

theorem numbered_of_reach {lc : LinkConfig} {ok : Link → LinkEvent → Prop} {s : Link}
    (hr : Reach (link rs lc) ok s) (y : Side) : Numbered (lc.side y) (s.session y).rx :=
  session_invariant (I := fun s => Numbered (lc.side y) s.rx) y (numbered_new _)
    (fun _ _ _ _ h hs => h.session hs) hr

end Numbered

/-! ## NAKs and the cache -/

theorem newRxBlock_seqNum (cfg : Config) (b : Nat) {i : Nat} (hi : i < cfg.fecK) :
    (newRxBlock cfg (UInt16.ofNat b)).seqNums.getD i 0 = UInt8.ofNat (b * cfg.fecK + i) := by
  have hmod : b % 65536 * cfg.fecK % 256 = b * cfg.fecK % 256 := by
    rw [Nat.mul_mod, Nat.mod_mod_of_dvd b (by decide : 256 ∣ 65536), ← Nat.mul_mod]
  have hget : (newRxBlock cfg (UInt16.ofNat b)).seqNums.getD i 0 =
      UInt8.ofNat ((b % 65536 * cfg.fecK % 256 + i) % 256) := by
    simp [newRxBlock, List.getD_eq_getElem?_getD, hi]
  rw [hget, hmod, ofNat8_eq_iff]
  omega

/-- The packet cached under a sequence number is the one its position names. -/
theorem Cached.lookup_iff {cfg : Config} {sent : List Block} {cache : Table UInt8 Packet}
    (h : Cached cfg sent cache) (hK : cfg.fecK ≤ 256) {b i : Nat} {blk : Block}
    (hblk : sent[b]? = some blk) (hi : i < cfg.fecK) (hlast : sent.length ≤ b + 65536) :
    (∃ p, cache.lookup (UInt8.ofNat (b * cfg.fecK + i)) = some p ∧ p.groupID = UInt16.ofNat b ∧
        p.idx = UInt8.ofNat i) ↔ sent.length * cfg.fecK ≤ b * cfg.fecK + i + 256 := by
  constructor
  · rintro ⟨p, hp, hg, hidx⟩
    obtain ⟨b', blk', i', hblk', hi', hle, -, rfl⟩ := (h _ p).mp hp
    -- the group and the index name one position of the last 65536 blocks
    have hbb : b % 65536 = b' % 65536 := by
      have hg' : UInt16.ofNat b' = UInt16.ofNat b := hg
      rw [← UInt16.toNat_inj, UInt16.toNat_ofNat', UInt16.toNat_ofNat'] at hg'
      exact hg'.symm
    have hii : i = i' := by
      have hmod := ofNat8_eq_iff.mp (show UInt8.ofNat i' = UInt8.ofNat i from hidx)
      omega
    have hlt := (List.getElem?_eq_some_iff.mp hblk).1
    have hlt' := (List.getElem?_eq_some_iff.mp hblk').1
    have hle' : b' ≤ b := by omega
    have hpos : b' * cfg.fecK ≤ b * cfg.fecK := Nat.mul_le_mul_right _ hle'
    omega
  · intro hle
    exact ⟨shardPacket cfg b blk i, (h _ _).mpr ⟨b, blk, i, hblk, hi, hle, rfl, rfl⟩, rfl, rfl⟩

theorem handleNak_nakPacket (cfg : Config) (s : Sender) (q : UInt8) :
    s.handleNak (Receiver.nakPacket cfg q) = s.harqCache.lookup q := rfl

/-- **A NAK finds its shard** exactly while fewer than 256 data packets have been flushed
after it. Block `b` is the last one of its GroupID. -/
theorem nak_finds_shard {rs : ReedSolomon} {lc : LinkConfig} {n : Nat} {code : Code UInt8 lc.fecK n}
    (himpl : Implements rs code) (hv : ∀ x, (lc.side x).Valid n) {ok : Link → LinkEvent → Prop}
    {s : Link} (hr : Reach (link rs lc) ok s) (x : Side) {b i : Nat} {blk : Block} {e : RxBlock}
    (he : (s.session x.other).rx.rxBlocks.lookup (UInt16.ofNat b) = some e) (hi : i < lc.fecK)
    (hblk : (s.session x).tx.sent[b]? = some blk)
    (hlast : (s.session x).tx.sent.length ≤ b + 65536) :
    ((∃ p, (s.session x).tx.handleNak (Receiver.nakPacket (lc.side x.other) (e.seqNums.getD i 0)) =
          some p ∧ p.groupID = UInt16.ofNat b ∧ p.idx = UInt8.ofNat i) ↔
        (s.session x).tx.sent.length * lc.fecK ≤ b * lc.fecK + i + 256) ∧
      ((s.session x).tx.sent.length * lc.fecK ≤ b * lc.fecK + i + 256 →
        (s.session x).tx.handleNak (Receiver.nakPacket (lc.side x.other) (e.seqNums.getD i 0)) =
          some (shardPacket (lc.side x) b blk i)) := by
  have hcache : Cached (lc.side x) (s.session x).tx.sent (s.session x).tx.harqCache :=
    (txInv_of_reach himpl hv hr x).inv.1.cache
  have hnum := numbered_of_reach hr x.other _ e he
  have hseq : e.seqNums.getD i 0 = UInt8.ofNat (b * lc.fecK + i) := by
    rw [hnum]
    exact newRxBlock_seqNum (lc.side x.other) b hi
  have hidx : lc.fecK + lc.fecM ≤ 32 := (hv x).le_idx
  rw [handleNak_nakPacket, hseq]
  refine ⟨hcache.lookup_iff (show lc.fecK ≤ 256 by omega) hblk hi hlast, fun hle => ?_⟩
  exact (hcache _ _).mpr ⟨b, blk, i, hblk, hi, hle, rfl, rfl⟩

/-- One round with everything lost: the receiver has the entry of `Start`. -/
theorem nak_finds_shard_small :
    ∃ s e blk, Reach (link reedSolomonTwoOne smallLink) (fun _ e => Fifo e) s ∧
      (s.session .right).rx.rxBlocks.lookup 0 = some e ∧ e.slot 0 = none ∧
      (s.session .left).tx.sent[0]? = some blk ∧
      (s.session .left).tx.handleNak
        (Receiver.nakPacket (smallLink.side .right) (e.seqNums.getD 0 0)) =
        some (shardPacket (smallLink.side .left) 0 blk 0) := by
  obtain ⟨s, hr, hslot, hlen⟩ : ∃ s,
      Reach (link reedSolomonTwoOne smallLink) (fun _ e => Fifo e) s ∧
      ((s.session .right).rx.rxBlocks.lookup 0).map (RxBlock.slot · 0) = some none ∧
      (s.session .left).tx.sent.length = 1 :=
    Reach.exists_of_runOk _ (bothStart ++ readAndFlush [7, 9] ++ sendBlock ++ List.replicate 3
      (.drop .right 0))
      (by decide +kernel)
  obtain ⟨e, he, hnone⟩ := Option.map_eq_some_iff.mp hslot
  obtain ⟨blk, hblk⟩ : ∃ blk, (s.session .left).tx.sent = [blk] := List.length_eq_one_iff.mp hlen
  have hget : (s.session .left).tx.sent[0]? = some blk := by rw [hblk]; rfl
  exact ⟨s, e, blk, hr, he, hnone, hget,
    (@nak_finds_shard reedSolomonTwoOne smallLink 3 twoOne implements_twoOne
    (smallLink_documented.valid (by decide)) _ s hr .left 0 0 blk e he (by decide) hget
    (by rw [hlen]; decide)).2 (by rw [hlen]; decide)⟩

theorem bothStart_quiet :
    ∃ s, Reach (link reedSolomonTwoOne smallLink) (fun _ e => Fifo e) s ∧
      Quiet (s.session .right) [] 0 s ∧
      (s.session .right).rx.rxBlocks.lookup 0 = some (startRxBlock (smallLink.side .right)) := by
  obtain ⟨s, hr, ⟨hl, hc, hidle, hnet, hsent⟩, hpeer⟩ :
      ∃ s, Reach (link reedSolomonTwoOne smallLink) (fun _ e => Fifo e) s ∧
        ((s.session .left).launched = true ∧ (s.session .left).cancelled = false ∧
          (s.session .left).tx.Idle ∧ s.net .right = [] ∧ (s.session .left).tx.sent = []) ∧
        (s.session .right).rx.rxBlocks.lookup 0 = some (startRxBlock (smallLink.side .right)) :=
    Reach.exists_of_runOk _ bothStart (by decide +kernel)
  exact ⟨s, hr, ⟨hl, hc, hidle, hnet, rfl, hsent⟩, hpeer⟩

/-- **A NAK finds a shard of another block.** Blocks 0 to 128 are flushed and lost; the
cache answers for sequence number 0 with a packet of block 128. -/
theorem nak_finds_other_block :
    ∃ s e blk p, Reach (link reedSolomonTwoOne smallLink) (fun _ e => Fifo e) s ∧
      (s.session .right).rx.rxBlocks.lookup 0 = some e ∧ e.decoded = false ∧ e.slot 0 = none ∧
      (s.session .left).tx.sent[0]? = some blk ∧
      (s.session .left).tx.handleNak
      (Receiver.nakPacket (smallLink.side .right) (e.seqNums.getD 0 0)) = some p ∧
      p.groupID = 128 := by
  obtain ⟨s₀, hr₀, hq₀, hentry⟩ := bothStart_quiet
  obtain ⟨s, hr, hq⟩ := quiet_rounds (fun _ _ _ => trivial) (fun _ _ _ => trivial) hr₀ hq₀ 129
  have hsent : (s.session .left).tx.sent = List.replicate 129 (pairBlock 0 0) := hq.sent
  have hcache :
      Cached (smallLink.side .left) (s.session .left).tx.sent (s.session .left).tx.harqCache :=
    (txInv_of_reach implements_twoOne (smallLink_documented.valid (by decide)) hr .left).inv.1.cache
  have hget : ∀ b < 129, (s.session .left).tx.sent[b]? = some (pairBlock 0 0) := by
    intro b hb
    rw [hsent, List.getElem?_replicate, if_pos hb]
  have hlast :=
    (hcache (UInt8.ofNat (128 * 2 + 0))
      (shardPacket (smallLink.side .left) 128 (pairBlock 0 0) 0)).mpr
    ⟨128, pairBlock 0 0, 0, hget 128 (by decide), by decide, by
      rw [hsent, List.length_replicate]; decide, rfl, rfl⟩
  have hseq : (startRxBlock (smallLink.side .right)).seqNums.getD 0 0 =
      UInt8.ofNat (128 * 2 + 0) := by decide
  refine ⟨s, _, _, shardPacket (smallLink.side .left) 128 (pairBlock 0 0) 0, hr,
    by rw [hq.peer]; exact hentry, by decide, by decide, hget 0 (by decide), ?_, rfl⟩
  rw [handleNak_nakPacket, hseq, hlast]

/-! ## Timers and NAK checks -/

/-- A group that is not reported yet has its LQR timer or the timer's callback pending; a
reported one has its NAK check scheduled. -/
def Watched (done : Bool) (r : Receiver) (g : UInt16) (e : RxBlock) : Prop :=
  (e.lqrReported = false → e.lqrTimer = .armed ∨ g ∈ r.lqrCallbacks) ∧
    (e.lqrReported = true → done = true ∨ g ∈ r.nakChecks)

/-- The writer is between taking its block and deleting it. -/
def Writer.busy : Writer → Bool
  | .write _ | .cleanup | .report | .finish => true
  | _ => false

/-- Every entry that is not decoded is watched, and a busy writer's block is decoded. -/
structure Watching (done : Bool) (r : Receiver) : Prop where
  block : r.writer.busy = true → AtBlock r
  entries : ∀ g e, r.rxBlocks.lookup g = some e → e.decoded = false → Watched done r g e

section Watching

variable {rs : ReedSolomon} {cfg : Config} {done closeRecv : Bool} {r : Receiver}

theorem Watching.mono {done' : Bool} (hd : done = true → done' = true) (h : Watching done r) :
    Watching done' r :=
  ⟨h.block, fun g e he hu => ⟨(h.entries g e he hu).1,
    fun hrep => ((h.entries g e he hu).2 hrep).imp_left hd⟩⟩

theorem AtBlock.insert (h : AtBlock r) {g : UInt16} {b : RxBlock}
    (hb : r.rxBlocks.lookup g = some b) (b' : RxBlock) (hd : b'.core = b.core) :
    ∃ e, (r.rxBlocks.insert g b').lookup r.nextWriteGrp = some e ∧ e.decoded = true :=
  (SameCores.insert hb hd).decoded h

theorem Watching.writer (h : Watching done r) {w : Writer} (hw : w.busy = true → AtBlock r) :
    Watching done { r with writer := w } :=
  ⟨hw, h.entries⟩

theorem Watching.advance (h : Watching done r) : Watching done r.advance := by
  refine ⟨by simp [Receiver.advance, Writer.busy], fun g e he hu => ?_⟩
  change (r.rxBlocks.erase r.nextWriteGrp).lookup g = some e at he
  rw [lookup_erase_eq] at he
  split at he
  · cases he
  · exact h.entries g e he hu

/-- `handleLQRTimeout` of group `g`, when the callbacks of the other groups still wait. -/
theorem Watching.timeout (h : Watching done r) (g : UInt16) {cbs : List UInt16}
    (hcbs : ∀ g' ∈ r.lqrCallbacks, g' ≠ g → g' ∈ cbs) :
    Watching done (Receiver.handleLQRTimeout cfg { r with lqrCallbacks := cbs } g).state := by
  -- groups other than `g` keep what they had
  have hother : ∀ g' e, g' ≠ g → r.rxBlocks.lookup g' = some e → e.decoded = false →
      (e.lqrReported = false → e.lqrTimer = .armed ∨ g' ∈ cbs) ∧
        (e.lqrReported = true → done = true ∨ g' ∈ r.nakChecks) := by
    intro g' e hne he hu
    have hw := h.entries g' e he hu
    exact ⟨fun hrep => (hw.1 hrep).imp_right fun hg => hcbs g' hg hne, hw.2⟩
  unfold Receiver.handleLQRTimeout
  split
  · rename_i hb
    refine ⟨h.block, fun g' e he hu => ?_⟩
    refine hother g' e ?_ he hu
    rintro rfl
    cases hb.symm.trans he
  · rename_i b hb
    change r.rxBlocks.lookup g = some b at hb
    split
    · rename_i hrep
      refine ⟨h.block, fun g' e he hu => ?_⟩
      change r.rxBlocks.lookup g' = some e at he
      by_cases hg : g' = g
      · subst hg
        obtain rfl : b = e := Option.some.inj (hb.symm.trans he)
        exact ⟨fun hno => by simp [hrep] at hno, fun _ => (h.entries _ _ hb hu).2 hrep⟩
      · exact hother g' e hg he hu
    · refine ⟨fun hw => ?_, fun g' e he hu => ?_⟩
      · exact (h.block hw).insert hb { b with lqrReported := true } rfl
      · simp only [lookup_insert_eq] at he
        split at he
        · rename_i hg
          cases he
          exact ⟨by simp, fun _ => Or.inr (by simp [hg])⟩
        · rename_i hg
          have hw := hother g' e hg he hu
          exact ⟨hw.1, fun hrep => (hw.2 hrep).imp_right fun hm => List.mem_append_left _ hm⟩

/-- `sendNakPeriodic` gives up on a group only if it is decoded or gone. -/
theorem Watching.nak (h : Watching done r) (g : UInt16) :
    Watching done (Receiver.sendNakPeriodic cfg done r g).state := by
  have hgone : (done = true ∨ ∀ e, r.rxBlocks.lookup g = some e → e.decoded = true) →
      Watching done { r with nakChecks := r.nakChecks.erase g } := by
    intro hg
    refine ⟨h.block, fun g' e he hu => ?_⟩
    have hw := h.entries g' e he hu
    refine ⟨hw.1, fun hrep => ?_⟩
    rcases hg with hd | hdec
    · exact Or.inl hd
    · refine (hw.2 hrep).imp_right fun hm => (List.mem_erase_of_ne ?_).mpr hm
      rintro rfl
      rw [hdec e he] at hu
      cases hu
  unfold Receiver.sendNakPeriodic
  simp only
  split
  · rename_i hd
    exact hgone (Or.inl hd)
  · split
    · rename_i hb
      exact hgone (Or.inr fun e he => by cases hb.symm.trans he)
    · rename_i b hb
      split
      · rename_i hdec
        exact hgone (Or.inr fun e he => by rw [← Option.some.inj (hb.symm.trans he)]; exact hdec)
      · split <;> exact h

/-- The timer and the flags of a decoded block no longer matter. -/
theorem Watching.of_decoded (h : Watching done r) {b : RxBlock} (hb : r.current = some b)
    (hdec : b.decoded = true) (b' : RxBlock) (hcore : b'.core = b.core) :
    Watching done { r with rxBlocks := r.rxBlocks.insert r.nextWriteGrp b' } := by
  refine ⟨fun hw => (h.block hw).insert hb b' hcore, fun g e he hu => ?_⟩
  simp only [lookup_insert_eq] at he
  split at he
  · cases he
    rw [(RxBlock.core_fields hcore).2.2.2.1, hdec] at hu
    cases hu
  · exact h.entries g e he hu

theorem Watching.step {ev : RxEvent} {eff : Effect Receiver} (h : Watching done r)
    (hs : r.step cfg done closeRecv ev = some eff) : Watching done eff.state := by
  cases ev with
  | lqrFire g =>
    simp only [Receiver.step] at hs
    split at hs
    · rename_i b hb
      simp only [Option.ite_none_right_eq_some, Option.some.injEq] at hs
      obtain ⟨-, rfl⟩ := hs
      refine ⟨fun hw => (h.block hw).insert hb { b with lqrTimer := .fired } rfl,
        fun g' e he hu => ?_⟩
      simp only [lookup_insert_eq] at he
      split at he
      · rename_i hg
        cases he
        exact ⟨fun _ => Or.inr (by simp [hg]), hg ▸ (h.entries g b hb hu).2⟩
      · have hw := h.entries g' e he hu
        exact ⟨fun hrep => (hw.1 hrep).imp_right fun hm => List.mem_append_left _ hm, hw.2⟩
    · cases hs
  | lqrRun g =>
    simp only [Receiver.step, Option.ite_none_right_eq_some, Option.some.injEq] at hs
    obtain ⟨-, rfl⟩ := hs
    exact h.timeout g fun g' hg hne => (List.mem_erase_of_ne hne).mpr hg
  | nakRun g =>
    simp only [Receiver.step, Option.ite_none_right_eq_some, Option.some.injEq] at hs
    obtain ⟨-, rfl⟩ := hs
    exact h.nak g
  | wait =>
    simp only [Receiver.step, Option.ite_none_right_eq_some, Option.some.injEq] at hs
    obtain ⟨-, rfl⟩ := hs
    unfold Receiver.waitStep
    simp only
    split
    · exact h.writer (by simp [Writer.busy])
    · split
      · rename_i hdec
        refine h.writer fun _ => ?_
        cases hb : r.current with
        | none => simp [hb] at hdec
        | some b => exact ⟨b, hb, by simpa [hb] using hdec⟩
      · split
        · exact h.writer (by simp [Writer.busy])
        · exact h
  | slot =>
    simp only [Receiver.step] at hs
    split at hs
    · rename_i i b hw hb
      have hat := h.block (by simp [hw, Writer.busy])
      split at hs
      · split at hs
        · cases hs
        · cases hs
          exact ⟨fun _ => hat, h.entries⟩
      · cases hs
        exact h.writer fun _ => hat
    · cases hs
  | slotError m =>
    simp only [Receiver.step] at hs
    split at hs
    · simp only [Option.ite_none_right_eq_some, Option.some.injEq] at hs
      obtain ⟨-, rfl⟩ := hs
      exact ⟨by simp [Writer.busy], h.entries⟩
    · cases hs
  | cleanup =>
    simp only [Receiver.step] at hs
    split at hs
    · rename_i b hw hb
      obtain ⟨b', hb', hdec⟩ := h.block (by simp [hw, Writer.busy])
      obtain rfl : b = b' := Option.some.inj (hb.symm.trans hb')
      have h₁ := h.of_decoded hb hdec
        { b with lqrTimer := if b.lqrTimer = LqrTimer.armed then .stopped else b.lqrTimer } rfl
      split at hs
      · cases hs
        exact h₁.advance
      · cases hs
        exact h₁.writer fun _ => h₁.block (by simp [hw, Writer.busy])
    · cases hs
  | report =>
    simp only [Receiver.step, Option.ite_none_right_eq_some, Option.some.injEq] at hs
    obtain ⟨hw, rfl⟩ := hs
    obtain ⟨t, naks, heq, hsame⟩ := Receiver.handleLQRTimeout_eq cfg r r.nextWriteGrp
    have h' : Watching done (Receiver.handleLQRTimeout cfg r r.nextWriteGrp).state :=
      h.timeout r.nextWriteGrp fun g' hg _ => hg
    refine h'.writer fun _ => h'.block ?_
    rw [heq]
    simp [hw, Writer.busy]
  | finish =>
    simp only [Receiver.step, Option.ite_none_right_eq_some, Option.some.injEq] at hs
    obtain ⟨-, rfl⟩ := hs
    exact h.advance
  | leave =>
    simp only [Receiver.step] at hs
    split at hs
    · cases hs
      exact ⟨by simp [Writer.busy], h.entries⟩
    · cases hs

/-- An entry that a packet or `Start` makes has its LQR timer armed. -/
theorem Watching.recv (h : Watching done r) (p : Packet) :
    Watching done (r.handleDataPacket rs cfg p) := by
  obtain ⟨top, has, hnote⟩ := r.noteGroup_eq p.groupID
  have hin := r.handleDataPacket_intake rs cfg p
  generalize r.handleDataPacket rs cfg p = r' at hin
  have hblock : r'.writer.busy = true → AtBlock r' := by
    rw [hin.writer]
    exact fun hw => hin.atBlock (h.block hw)
  cases hin with
  | closed => exact h
  | old =>
    rw [hnote] at hblock ⊢
    exact ⟨hblock, h.entries⟩
  | take =>
    rw [hnote] at hblock ⊢
    refine ⟨hblock, fun g e he hu => ?_⟩
    simp only [lookup_insert_eq] at he
    split at he
    · rename_i hg
      cases he
      obtain ⟨-, htimer, hrep⟩ := RxBlock.receive_frame rs (r.blockFor cfg p.groupID) p
      cases hb : r.rxBlocks.lookup p.groupID with
      | none =>
        simp only [Receiver.blockFor, hb, Option.getD_none] at htimer hrep ⊢
        exact ⟨fun _ => Or.inl htimer, fun hr => by cases hrep.symm.trans hr⟩
      | some b =>
        simp only [Receiver.blockFor, hb, Option.getD_some] at htimer hrep hu ⊢
        have hub : b.decoded = false := by
          by_contra hd
          rw [RxBlock.receive_decoded (by simpa using hd)] at hu
          cases hu
        have hw := h.entries _ b hb hub
        rw [hg]
        simp only [Watched, htimer, hrep]
        exact hw
    · exact h.entries g e he hu

theorem Watching.start (h : Watching done r) : Watching done (Receiver.startInit cfg r) := by
  unfold Receiver.startInit
  split
  · rename_i hempty
    have hnone : ∀ g, r.rxBlocks.lookup g = none := lookup_of_isEmpty hempty
    refine ⟨fun hw => ?_, fun g e he hu => ?_⟩
    · obtain ⟨e, he, -⟩ := h.block hw
      rw [Receiver.current, hnone] at he
      cases he
    · simp only [lookup_insert_eq, hnone] at he
      split at he
      · cases he
        exact ⟨fun _ => Or.inl rfl, by simp [startRxBlock]⟩
      · cases he
  · exact h

theorem watching_new : Watching (newSession cfg).cancelled (newSession cfg).rx :=
  ⟨by simp [newSession, Writer.busy], fun g e he => by simp [newSession] at he⟩

theorem Watching.session {s s' : Session} {ev : SessionEvent} {out : List Bytes}
    (h : Watching s.cancelled s.rx) (hs : s.step rs cfg ev = some (s', out)) :
    Watching s'.cancelled s'.rx := by
  obtain ⟨hchange, -, hcancel⟩ := Session.step_rxChange hs
  refine Watching.mono hcancel ?_
  generalize s'.rx = r' at hchange ⊢
  cases hchange with
  | same => exact h
  | launch => exact h.writer (by simp [Writer.busy])
  | start => exact h.start
  | step ev eff heff => exact h.step heff
  | data p ht => exact h.recv p

/-- **Run lemma.** Whatever arrives, every entry that is not decoded is watched. -/
theorem watched_of_reach {lc : LinkConfig} {ok : Link → LinkEvent → Prop} {s : Link}
    (hr : Reach (link rs lc) ok s) (y : Side) : Watching (s.session y).cancelled (s.session y).rx :=
  session_invariant (I := fun s => Watching s.cancelled s.rx) y watching_new
    (fun _ _ _ _ h hs => h.session hs) hr

end Watching

/-! ## Holes -/

/-- The first block no packet of which has been seen; `Start` stands in for block 0. -/
def Receiver.frontier (r : Receiver) : Nat :=
  if r.hasRecv then r.horizon else if (r.rxBlocks.lookup 0).isSome then 1 else 0

/-- Tracked, and no block has been skipped. -/
def Unskipped (r : Receiver) (b : Nat) : Prop := Tracked r b ∧ b ≤ r.frontier

instance (r : Receiver) (b : Nat) : Decidable (Unskipped r b) := inferInstanceAs (Decidable (_ ∧ _))

/-- Every block from the writer's up to the highest one received has an entry. -/
def Gapless (r : Receiver) : Prop :=
  ∀ b, r.written ≤ b → b < r.horizon → (r.rxBlocks.lookup (UInt16.ofNat b)).isSome = true

section Gapless

variable {rs : ReedSolomon} {lc : LinkConfig} {n : Nat} {code : Code UInt8 lc.fecK n}
  {sent : List Block} {r r' : Receiver} {b : Nat}

theorem SameCores.isSome {t t' : Table UInt16 RxBlock} (h : SameCores t t') {g : UInt16}
    (hg : (t.lookup g).isSome = true) : (t'.lookup g).isSome = true := by
  have hmap := congrArg Option.isSome (h g)
  rw [Option.isSome_map, Option.isSome_map] at hmap
  rw [hmap]
  exact hg

theorem Gapless.of_eq (h : Gapless r) (hw : r'.written = r.written)
    (hm : r'.maxRecvGrp = r.maxRecvGrp) (hr : r'.hasRecv = r.hasRecv)
    (hs : SameCores r.rxBlocks r'.rxBlocks) : Gapless r' := by
  have hh : r'.horizon = r.horizon := by rw [Receiver.horizon, hw, hm, hr, Receiver.horizon]
  intro b hle hlt
  exact hs.isSome (h b (hw ▸ hle) (hh ▸ hlt))

theorem Gapless.advance (h : Gapless r) (hn : r.nextWriteGrp = UInt16.ofNat r.written)
    (hlt : r.written < r.horizon) (hwin : r.horizon ≤ r.written + 32768) : Gapless r.advance := by
  intro b hle hb
  rw [advance_horizon hlt] at hb
  change r.written + 1 ≤ b at hle
  change ((r.rxBlocks.erase r.nextWriteGrp).lookup (UInt16.ofNat b)).isSome = true
  rw [lookup_erase_eq, if_neg]
  · exact h b (by omega) hb
  · intro heq
    rw [hn, ← UInt16.toNat_inj, UInt16.toNat_ofNat', UInt16.toNat_ofNat'] at heq
    omega

theorem isSome_lookup_insert {t : Table UInt16 RxBlock} {g g' : UInt16} (e : RxBlock)
    (h : g' = g ∨ (t.lookup g').isSome = true) : ((t.insert g e).lookup g').isSome = true := by
  rw [lookup_insert_eq]
  split
  · rfl
  · rename_i hne
    exact h.resolve_left hne

theorem Gapless.recv {x y : Side} {p : Packet} (hrx : RxInv code sent r) (ht : Tracking code sent r)
    (h : Gapless r) (hp : FromBlock (lc.side x) sent b p) (hb : Unskipped r b) :
    Gapless (r.handleDataPacket rs (lc.side y) p) := by
  have hh := noteGroup_horizon ht hb.1
  obtain ⟨htr, hfront⟩ := hb
  obtain ⟨hlo, hhi⟩ := htr.1.inTurn
  obtain ⟨top, has, hnote⟩ := r.noteGroup_eq (UInt16.ofNat b)
  have hw : (r.noteGroup (UInt16.ofNat b)).written = r.written := by rw [hnote]
  have hcases := hrx.intake hp hlo (r.handleDataPacket_intake rs (lc.side y) p)
  generalize r.handleDataPacket rs (lc.side y) p = r' at hcases
  rcases hcases with rfl | ⟨hold, rfl⟩ | ⟨hle, rfl⟩
  · exact h
  · -- a block behind the writer is no news
    have hlt : b < r.written := htr.1.lt_of_old hrx.next hold
    have hge := ht.written_le
    intro j hj hj'
    rw [hh] at hj'
    rw [hnote]
    exact h j (hw ▸ hj) (by omega)
  · intro j hj hj'
    have hjh : j < max r.horizon (b + 1) := hh ▸ hj'
    have hjw : r.written ≤ j := hw ▸ hj
    apply isSome_lookup_insert
    by_cases hjb : j = b
    · exact Or.inl (by rw [hjb])
    · right
      by_cases hlt : j < r.horizon
      · exact h j hjw hlt
      · -- nothing had been received, so `j` is block 0
        unfold Receiver.frontier at hfront
        split at hfront
        · omega
        · split at hfront
          · rename_i hzero
            obtain rfl : j = 0 := by omega
            exact hzero
          · omega

/-- Every step keeps the receiver without holes. -/
theorem gapless_stable (hv : ∀ x, (lc.side x).Valid n) :
    RxStable rs lc code Unskipped (fun sent r => Tracking code sent r ∧ Gapless r) where
  init := ⟨tracking_init, fun b _ hb => nomatch hb⟩
  history hpre h := ⟨h.1.extend hpre, h.2⟩
  launch h := ⟨h.1.of_eq rfl rfl rfl .rfl, h.2.of_eq rfl rfl rfl .rfl⟩
  start y h := by
    refine ⟨h.1.start hv y, ?_⟩
    unfold Receiver.startInit
    split
    · exact fun b hle hb => isSome_lookup_insert _ (Or.inr (h.2 b hle hb))
    · exact h.2
  move hrx h hm := by
    refine ⟨h.1.move (hv .left).one_le hrx hm, ?_⟩
    cases hm with
    | timers t cbs naks hsame => exact h.2.of_eq rfl rfl rfl hsame
    | stay => exact h.2
    | unreported t hw hsame => exact h.2.of_eq rfl rfl rfl hsame
    | reported t naks hw hsame => exact h.2.of_eq rfl rfl rfl hsame
    | advance t hw hsame =>
      rename_i r _ _
      have hlt := h.1.written_lt (hv .left).one_le hrx hw
      have hwin := h.1.le_window
      exact Gapless.advance (r := { r with rxBlocks := t }) (h.2.of_eq rfl rfl rfl hsame) hrx.next
        hlt hwin
    | _ => exact h.2.of_eq rfl rfl rfl .rfl
  recv _ hrx h hp hb := ⟨h.1.recv hrx hp hb.1, h.2.recv hrx h.1 hp hb⟩

/-- The groups from `nextWriteGrp` to `maxRecvGrp` are the blocks below the horizon. -/
theorem blockOf_lt_horizon (hrx : RxInv code sent r) (ht : Tracking code sent r)
    (hr : r.hasRecv = true) {g : UInt16} (hle : g - r.nextWriteGrp ≤ r.maxRecvGrp - r.nextWriteGrp)
    (hhalf : r.maxRecvGrp - r.nextWriteGrp < 32768) : blockOf r.written g < r.horizon := by
  have hblock : ∀ g : UInt16, blockOf r.written g = r.written + (g - r.nextWriteGrp).toNat := by
    intro g
    rw [toNat_sub_eq_dist, hrx.next, UInt16.toNat_ofNat', blockOf, Serial.unwrap]
    exact congrArg _ (Serial.dist_mod_right _ _ _).symm
  have hmax : UInt16.ofNat (blockOf r.written r.maxRecvGrp) = UInt16.ofNat (r.horizon - 1) := by
    rw [ofNat_blockOf, ← ht.maxRecvGrp hr]
  rw [← UInt16.toNat_inj, UInt16.toNat_ofNat', UInt16.toNat_ofNat', hblock] at hmax
  have hwin := ht.le_window
  have hpos := ht.pos hr
  have hge := ht.written_le
  have hle' : (g - r.nextWriteGrp).toNat ≤ (r.maxRecvGrp - r.nextWriteGrp).toNat := hle
  have hhalf' : (r.maxRecvGrp - r.nextWriteGrp).toNat < 32768 := hhalf
  rw [hblock]
  omega

/-- An entry that is not decoded has fewer than `k` shards. -/
theorem RxInv.receivedCnt_lt (hrx : RxInv code sent r) {g : UInt16} {e : RxBlock}
    (he : r.rxBlocks.lookup g = some e) (hu : e.decoded = false) : e.receivedCnt < e.k := by
  obtain ⟨data, R, hh⟩ : ∃ data R, Holding code data R e := by
    rcases hrx.entries g e he with hb | ⟨blk, -, R, -, hh⟩
    · exact ⟨[], ∅, hb []⟩
    · exact ⟨blk.data, R, hh⟩
  rw [hh.k_eq, (hh.undecoded hu).2]
  exact hh.short hu

/-- **Every hole is watched.** As long as the arrivals skip no block, every group from
`nextWriteGrp` to `maxRecvGrp` has an entry; one that is not decoded has its LQR timer or
its NAK check pending, and the check asks for every missing shard and stays scheduled. -/
theorem holes_watched (himpl : Implements rs code) (hv : ∀ x, (lc.side x).Valid n) {s : Link}
    (hr : Reach (link rs lc) (Arrivals lc Unskipped) s) (y : Side)
    (hrecv : (s.session y).rx.hasRecv = true) {g : UInt16}
    (hle : g - (s.session y).rx.nextWriteGrp ≤
      (s.session y).rx.maxRecvGrp - (s.session y).rx.nextWriteGrp)
    (hhalf : (s.session y).rx.maxRecvGrp - (s.session y).rx.nextWriteGrp < 32768) :
    ∃ e, (s.session y).rx.rxBlocks.lookup g = some e ∧
      (e.decoded = false → Watched (s.session y).cancelled (s.session y).rx g e ∧
        (Receiver.sendNakPeriodic (lc.side y) false (s.session y).rx g).state = (s.session y).rx ∧
        (Receiver.sendNakPeriodic (lc.side y) false (s.session y).rx g).out =
          e.missing.flatMap fun i =>
          sendPacketDirect (Receiver.nakPacket (lc.side y) (e.seqNums.getD i 0))) := by
  have hnear : ∀ r b, Unskipped r b → InTurn r b := fun r b h => h.1.1.inTurn
  have hrx := (linkInv_of_reach himpl hv (fun _ _ h => h.mono hnear) hr).rx y.other
  obtain ⟨ht, hgap⟩ := (gapless_stable hv).of_reach himpl hv hnear (fun _ _ h => h) hr y.other
  rw [Side.other_other] at hrx ht hgap
  have hlt := blockOf_lt_horizon hrx ht hrecv hle hhalf
  have hsome := hgap (blockOf (s.session y).rx.written g) (Serial.le_unwrap _ _ _) hlt
  rw [ofNat_blockOf] at hsome
  obtain ⟨e, he⟩ := Option.isSome_iff_exists.mp hsome
  refine ⟨e, he, fun hu => ⟨(watched_of_reach hr y).entries g e he hu, ?_⟩⟩
  have hcnt := hrx.receivedCnt_lt he hu
  simp [Receiver.sendNakPeriodic, he, hu, hcnt]

end Gapless

/-- One packet of each of the first two blocks arrives. -/
def twoBlocksRun : List LinkEvent :=
  bothStart ++ readAndFlush [7] ++ sendBlock ++ [.drop .right 0, .deliver .right 0 false,
    .drop .right 0] ++ readAndFlush [9] ++ sendBlock ++ [.deliver .right 0 false, .drop .right 0,
    .drop .right 0]

theorem holes_watched_small :
    ∃ s e, Reach (link reedSolomonTwoOne smallLink) (Arrivals smallLink Unskipped) s ∧
      (s.session .right).rx.maxRecvGrp = 1 ∧ (s.session .right).rx.rxBlocks.lookup 0 = some e ∧
      e.decoded = false ∧ Watched (s.session .right).cancelled (s.session .right).rx 0 e := by
  obtain ⟨s, hr, hhas, hnext, hmax, hdec⟩ :
      ∃ s, Reach (link reedSolomonTwoOne smallLink) (Arrivals smallLink Unskipped) s ∧
        (s.session .right).rx.hasRecv = true ∧ (s.session .right).rx.nextWriteGrp = 0 ∧
        (s.session .right).rx.maxRecvGrp = 1 ∧
        ((s.session .right).rx.rxBlocks.lookup 0).map RxBlock.decoded = some false :=
    Reach.exists_of_runOk _ twoBlocksRun (by decide +kernel)
  obtain ⟨e, he, hw⟩ := @holes_watched reedSolomonTwoOne smallLink 3 twoOne implements_twoOne
    (smallLink_documented.valid (by decide)) s hr .right hhas 0 (by rw [hnext, hmax]; decide)
    (by rw [hnext, hmax]; decide)
  have hu : e.decoded = false := by simpa [he] using hdec
  exact ⟨s, e, hr, hmax, he, hu, (hw hu).1⟩

/-- Block 0 and block 2 arrive, all packets of block 1 are lost. -/
def skipRun : List LinkEvent :=
  bothStart ++ readAndFlush [7] ++ sendBlock ++ List.replicate 3 (.deliver .right 0 false) ++
    readAndFlush [8] ++ sendBlock ++ List.replicate 3 (.drop .right 0) ++
    readAndFlush [9] ++ sendBlock ++ List.replicate 3 (.deliver .right 0 false)

/-- **A hole that is not known.** Block 1 is lost between two received blocks: it has no
entry, no callback and no NAK check. -/
theorem hole_unknown :
    ∃ s, Reach (link reedSolomonTwoOne smallLink) (fun _ e => Fifo e) s ∧
      (s.session .right).started = true ∧ (s.session .right).rx.hasRecv = true ∧
      (s.session .right).rx.nextWriteGrp = 0 ∧ (s.session .right).rx.maxRecvGrp = 2 ∧
      (s.session .right).rx.rxBlocks.lookup 1 = none ∧ 1 ∉ (s.session .right).rx.lqrCallbacks ∧
      1 ∉ (s.session .right).rx.nakChecks :=
  Reach.exists_of_runOk _ skipRun (by decide +kernel)

end TcpPep
