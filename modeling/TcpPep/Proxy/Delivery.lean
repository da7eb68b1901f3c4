import TcpPep.Lib.Serial
import TcpPep.Proxy.History

/-!
The receiving half against the sender's history.

With `written` blocks written, a GroupID stands for the block in
`[written, written + 65536)` it is congruent to. `RxInv` says that every entry
of `rxBlocks` holds shards of that block only, and that the bytes written are
those of the first `written` blocks and of the slots the writer has passed.

* `after_ofNat`: the half-space test on GroupIDs;
* `Receiver.Move`, `step_move`: what a step of the receiving half can do;
* `Move.rxInv`, `handleDataPacket_rxInv`: the step lemmas;
* `RxInv.tcpOut_isPrefix`: what is written is a prefix of what was sent.
-/

namespace TcpPep

open Protocol Fec FiniteMap ErasureCode

/-! ## The two ends -/

inductive Side where
  | left
  | right
  deriving DecidableEq

def Side.other : Side → Side
  | .left => .right
  | .right => .left

/-- Two sessions of one stream: the FEC parameters agree, link parameters may differ. -/
structure LinkConfig where
  streamID : UInt16
  fecK : Nat
  fecM : Nat
  linkMTU : Side → Nat
  bandwidth : Side → Nat

/-- The parameters of the session at one end. -/
abbrev LinkConfig.side (lc : LinkConfig) (x : Side) : Config :=
  { streamID := lc.streamID, linkMTU := lc.linkMTU x, bandwidth := lc.bandwidth x
    fecK := lc.fecK, fecM := lc.fecM }

/-! ## GroupIDs as residues -/

theorem toNat_sub_eq_dist (a b : UInt16) : (a - b).toNat = Serial.dist 65536 a.toNat b.toNat := by
  have ha := a.toNat_lt
  have hb := b.toNat_lt
  rw [UInt16.toNat_sub, Serial.dist]
  omega

theorem after_ofNat (x y : Nat) :
    after (UInt16.ofNat x) (UInt16.ofNat y) = true ↔
      0 < Serial.dist 65536 x y ∧ Serial.dist 65536 x y < 32768 := by
  have hd : (UInt16.ofNat x - UInt16.ofNat y).toNat = Serial.dist 65536 x y := by
    rw [toNat_sub_eq_dist, UInt16.toNat_ofNat', UInt16.toNat_ofNat']
    exact (Serial.dist_mod_left _ _ _).trans (Serial.dist_mod_right _ _ _)
  simp only [after, Bool.and_eq_true, decide_eq_true_eq, gt_iff_lt, UInt16.lt_iff_toNat_lt, hd]
  rfl

/-- A group in front of the writer, or less than half a turn behind it. -/
theorem after_eq_true_of_lt {x y : Nat} (hlt : y < x) (hle : x ≤ y + 32767) :
    after (UInt16.ofNat x) (UInt16.ofNat y) = true := by
  rw [after_ofNat, Serial.dist_of_le (by omega) (by omega)]
  omega

/-- The block a GroupID stands for. -/
def blockOf (written : Nat) (g : UInt16) : Nat := Serial.unwrap 65536 written g.toNat

theorem blockOf_ofNat {written b : Nat} (hle : written ≤ b) (hlt : b < written + 65536) :
    blockOf written (UInt16.ofNat b) = b := by
  rw [blockOf, UInt16.toNat_ofNat']
  exact (Serial.unwrap_mod_arg _ _ _).trans (Serial.unwrap_eq_self hle hlt)

theorem ofNat_blockOf (written : Nat) (g : UInt16) : UInt16.ofNat (blockOf written g) = g := by
  rw [← UInt16.toNat_inj, UInt16.toNat_ofNat', blockOf]
  exact (Serial.unwrap_mod (by decide) _ _).trans (Nat.mod_eq_of_lt g.toNat_lt)

/-- Moving the writer on changes the block of no other group. -/
theorem blockOf_succ {written : Nat} {g : UInt16} (hne : g ≠ UInt16.ofNat written) :
    blockOf (written + 1) g = blockOf written g := by
  apply Serial.unwrap_succ (by decide)
  intro hmod
  apply hne
  rw [← UInt16.toNat_inj, UInt16.toNat_ofNat', ← Nat.mod_eq_of_lt g.toNat_lt]
  exact hmod

/-! ## What a step can do -/

/-- A block without the state of its LQR timer. -/
def RxBlock.core (b : RxBlock) : RxBlock := { b with lqrTimer := .armed, lqrReported := false }

theorem RxBlock.core_fields {b b' : RxBlock} (h : b'.core = b.core) :
    b'.k = b.k ∧ b'.packets = b.packets ∧ b'.receivedCnt = b.receivedCnt ∧ b'.decoded = b.decoded ∧
      b'.seqNums = b.seqNums := by
  cases b
  cases b'
  simp_all [RxBlock.core]

theorem startRxBlock_eq (cfg : Config) : startRxBlock cfg = newRxBlock cfg 0 := by
  simp [startRxBlock, newRxBlock]

/-- Two tables with the same groups and the same shards. -/
def SameCores (t t' : Table UInt16 RxBlock) : Prop :=
  ∀ g, (t'.lookup g).map RxBlock.core = (t.lookup g).map RxBlock.core

theorem SameCores.rfl {t : Table UInt16 RxBlock} : SameCores t t := fun _ => by rfl

theorem SameCores.insert {t : Table UInt16 RxBlock} {g : UInt16} {b b' : RxBlock}
    (hb : t.lookup g = some b) (hcore : b'.core = b.core) : SameCores t (t.insert g b') := by
  intro g'
  rw [lookup_insert_eq]
  split
  · rename_i h
    rw [h, hb, Option.map_some, Option.map_some, hcore]
  · rfl

theorem SameCores.lookup {t t' : Table UInt16 RxBlock} (h : SameCores t t') {g : UInt16}
    {b' : RxBlock} (hb' : t'.lookup g = some b') : ∃ b, t.lookup g = some b ∧ b'.core = b.core := by
  have hg := h g
  rw [hb', Option.map_some] at hg
  obtain ⟨b, hb, hcore⟩ := Option.map_eq_some_iff.mp hg.symm
  exact ⟨b, hb, hcore.symm⟩

namespace Receiver

/-- The possible steps of the receiving half, with what guards them. -/
inductive Move (done closeRecv : Bool) (r : Receiver) : Receiver → Prop
  | timers (t : Table UInt16 RxBlock) (cbs naks : List UInt16) (hsame : SameCores r.rxBlocks t) :
      Move done closeRecv r { r with rxBlocks := t, lqrCallbacks := cbs, nakChecks := naks }
  | stay : Move done closeRecv r r
  | cancelled (hw : r.writer = .wait) (hd : done = true) :
      Move done closeRecv r { r with writer := .leave .cancelled }
  | take (hw : r.writer = .wait) (b : RxBlock) (hb : r.current = some b) (hdec : b.decoded = true) :
      Move done closeRecv r { r with writer := .write 0 }
  | close (hw : r.writer = .wait) (hd : done = false) (hc : closeRecv = true)
      (hdr : r.drained = true) :
      Move done closeRecv r { r with writer := .leave .closeRecv }
  | slot (i : Nat) (hw : r.writer = .write i) (b : RxBlock) (hb : r.current = some b)
      (hi : i < b.k) :
      Move done closeRecv r
        { r with tcpOut := r.tcpOut ++ extract (b.slot i), writer := .write (i + 1) }
  | slotsDone (i : Nat) (hw : r.writer = .write i) (b : RxBlock) (hb : r.current = some b)
      (hi : b.k ≤ i) :
      Move done closeRecv r { r with writer := .cleanup }
  | fail (i n : Nat) (hw : r.writer = .write i) (b : RxBlock) (hb : r.current = some b)
      (hi : i < b.k) (hn : n < (extract (b.slot i)).length) :
      Move done closeRecv r
        { r with tcpOut := r.tcpOut ++ (extract (b.slot i)).take n, writer := .leave .writeError }
  | unreported (t : Table UInt16 RxBlock) (hw : r.writer = .cleanup)
      (hsame : SameCores r.rxBlocks t) :
      Move done closeRecv r { r with rxBlocks := t, writer := .report }
  | reported (t : Table UInt16 RxBlock) (naks : List UInt16) (hw : r.writer = .report)
      (hsame : SameCores r.rxBlocks t) :
      Move done closeRecv r { r with rxBlocks := t, nakChecks := naks, writer := .finish }
  | advance (t : Table UInt16 RxBlock) (hw : r.writer = .cleanup ∨ r.writer = .finish)
      (hsame : SameCores r.rxBlocks t) :
      Move done closeRecv r (Receiver.advance { r with rxBlocks := t })
  | leave (why : Leave) (hw : r.writer = .leave why) :
      Move done closeRecv r
        { r with recvClosed := true, halfClosed := true, writer := .returned why }

/-- `handleLQRTimeout` touches flags of one block and the NAK schedule. -/
theorem handleLQRTimeout_eq (cfg : Config) (r : Receiver) (g : UInt16) :
    ∃ t naks, (handleLQRTimeout cfg r g).state = { r with rxBlocks := t, nakChecks := naks } ∧
      SameCores r.rxBlocks t := by
  unfold handleLQRTimeout
  split
  · exact ⟨_, _, rfl, .rfl⟩
  · rename_i b hb
    split
    · exact ⟨_, _, rfl, .rfl⟩
    · exact ⟨_, _, rfl, .insert hb rfl⟩

/-- The timers of the blocks touch flags of the blocks and the two schedules. -/
theorem step_timers {cfg : Config} {done closeRecv : Bool} {r : Receiver} {e : RxEvent} {g : UInt16}
    {eff : Effect Receiver} (he : e = .lqrFire g ∨ e = .lqrRun g ∨ e = .nakRun g)
    (h : r.step cfg done closeRecv e = some eff) :
    ∃ t cbs naks, eff.state = { r with rxBlocks := t, lqrCallbacks := cbs, nakChecks := naks } ∧
      SameCores r.rxBlocks t := by
  rcases he with rfl | rfl | rfl
  · simp only [step] at h
    split at h
    · rename_i b hb
      simp only [Option.ite_none_right_eq_some, Option.some.injEq] at h
      obtain ⟨-, rfl⟩ := h
      exact ⟨_, _, _, rfl, .insert hb rfl⟩
    · cases h
  · simp only [step, Option.ite_none_right_eq_some, Option.some.injEq] at h
    obtain ⟨-, rfl⟩ := h
    obtain ⟨t, naks, heq, hsame⟩ :=
      handleLQRTimeout_eq cfg { r with lqrCallbacks := r.lqrCallbacks.erase g } g
    exact ⟨t, _, naks, heq, hsame⟩
  · simp only [step, Option.ite_none_right_eq_some, Option.some.injEq] at h
    obtain ⟨-, rfl⟩ := h
    unfold sendNakPeriodic
    simp only
    split
    · exact ⟨_, _, _, rfl, .rfl⟩
    · split
      · exact ⟨_, _, _, rfl, .rfl⟩
      · split
        · exact ⟨_, _, _, rfl, .rfl⟩
        · split <;> exact ⟨_, _, _, rfl, .rfl⟩

theorem step_move {cfg : Config} {done closeRecv : Bool} {r : Receiver} {e : RxEvent}
    {eff : Effect Receiver} (h : r.step cfg done closeRecv e = some eff) :
    Move done closeRecv r eff.state := by
  cases e with
  | lqrFire g | lqrRun g | nakRun g =>
    obtain ⟨t, cbs, naks, heq, hsame⟩ := step_timers (g := g) (by simp) h
    rw [heq]
    exact .timers t cbs naks hsame
  | wait =>
    simp only [step, Option.ite_none_right_eq_some, Option.some.injEq] at h
    obtain ⟨hw, rfl⟩ := h
    unfold waitStep
    simp only
    split
    · rename_i hd
      exact .cancelled hw hd
    · rename_i hd
      split
      · rename_i hdec
        cases hb : r.current with
        | none => simp [hb] at hdec
        | some b => exact .take hw b hb (by simpa [hb] using hdec)
      · split
        · rename_i hc
          simp only [Bool.and_eq_true] at hc
          exact .close hw (by simpa using hd) hc.1 hc.2
        · exact .stay
  | slot =>
    simp only [step] at h
    split at h
    · rename_i i b hw hb
      split at h
      · rename_i hi
        split at h <;> cases h
        exact .slot i hw b hb hi
      · rename_i hi
        cases h
        exact .slotsDone i hw b hb (by omega)
    · cases h
  | slotError n =>
    simp only [step] at h
    split at h
    · rename_i i b hw hb
      simp only [Option.ite_none_right_eq_some, Option.some.injEq, Bool.and_eq_true,
        decide_eq_true_eq] at h
      obtain ⟨⟨hi, hn⟩, rfl⟩ := h
      exact .fail i n hw b hb hi hn
    · cases h
  | cleanup =>
    simp only [step] at h
    split at h
    · rename_i b hw hb
      have hsame : SameCores r.rxBlocks (r.rxBlocks.insert r.nextWriteGrp
          { b with lqrTimer := if b.lqrTimer = LqrTimer.armed then .stopped else b.lqrTimer }) :=
        .insert hb rfl
      split at h
      · cases h
        exact .advance _ (Or.inl hw) hsame
      · cases h
        exact .unreported _ hw hsame
    · cases h
  | report =>
    simp only [step, Option.ite_none_right_eq_some, Option.some.injEq] at h
    obtain ⟨hw, rfl⟩ := h
    obtain ⟨t, naks, heq, hsame⟩ := handleLQRTimeout_eq cfg r r.nextWriteGrp
    simp only [heq]
    exact .reported t naks hw hsame
  | finish =>
    simp only [step, Option.ite_none_right_eq_some, Option.some.injEq] at h
    obtain ⟨hw, rfl⟩ := h
    exact .advance r.rxBlocks (Or.inr hw) .rfl
  | leave =>
    simp only [step] at h
    split at h
    · rename_i why hw
      cases h
      exact .leave why hw
    · cases h

end Receiver

theorem Receiver.Move.idle {done closeRecv : Bool} {r r' : Receiver} (hm : Move done closeRecv r r')
    (hw : r.writer = .idle) : r'.writer = .idle := by
  cases hm with
  | timers t cbs naks hsame => exact hw
  | stay => exact hw
  | advance t hw' _ => simp [hw] at hw'
  | _ => simp_all

/-! ## The invariant -/

section Invariant

variable {rs : ReedSolomon} {k n : Nat} (code : Code UInt8 k n) (sent : List Block)

/-- No shard has arrived. -/
def Blank (b : RxBlock) : Prop := ∀ data, Holding code data ∅ b

/-- At least one shard of the sender block `blk` has arrived, and of no other. -/
def Filling (blk : Block) (b : RxBlock) : Prop := ∃ R : Finset Nat, R.Nonempty ∧
    Holding code blk.data R b

/-- An entry of `rxBlocks` holds shards of the block its group stands for. -/
def Entry (written : Nat) (g : UInt16) (b : RxBlock) : Prop :=
  Blank code b ∨ ∃ blk, sent[blockOf written g]? = some blk ∧ Filling code blk b

/-- The bytes of the blocks before number `w`. -/
def bytesBefore (w : Nat) : Bytes := (sent.take w).flatMap Block.bytes

/-- The writer's block is there and decoded. -/
def AtBlock (r : Receiver) : Prop := ∃ b, r.current = some b ∧ b.decoded = true

/-- What the writer has written, by where it stands. -/
def Progress (r : Receiver) : Prop :=
  match r.writer with
  | .write i => AtBlock r ∧ ∃ blk, sent[r.written]? = some blk ∧
      r.tcpOut = bytesBefore sent r.written ++ (blk.data.take i).flatMap unframe
  | .cleanup | .report | .finish => AtBlock r ∧ ∃ blk, sent[r.written]? = some blk ∧
      r.tcpOut = bytesBefore sent r.written ++ blk.bytes
  | .leave .writeError | .returned .writeError => AtBlock r ∧ ∃ blk, sent[r.written]? = some blk ∧
      r.tcpOut <+: bytesBefore sent r.written ++ blk.bytes ∧
      r.tcpOut ≠ bytesBefore sent r.written ++ blk.bytes
  | _ => r.tcpOut = bytesBefore sent r.written

structure RxInv (r : Receiver) : Prop where
  next : r.nextWriteGrp = UInt16.ofNat r.written
  le : r.written ≤ sent.length
  entries : ∀ g b, r.rxBlocks.lookup g = some b → Entry code sent r.written g b
  progress : Progress sent r

variable {code sent}

theorem Holding.of_core {data : List Bytes} {R : Finset Nat} {b b' : RxBlock}
    (hcore : b'.core = b.core) (h : Holding code data R b) : Holding code data R b' := by
  obtain ⟨hk, hp, hr, hd, -⟩ := RxBlock.core_fields hcore
  have hslot : ∀ i, b'.slot i = b.slot i := fun i => by rw [RxBlock.slot, hp, RxBlock.slot]
  refine ⟨⟨hk.trans h.k_eq, hp ▸ h.le_length, hp ▸ h.length_le, ?_, ?_, ?_⟩, ?_⟩
  · intro i p hi
    exact h.slots i p (hslot i ▸ hi)
  · rw [hd, hp, hr]
    exact h.undecoded
  · rw [hd]
    exact fun hdec => ⟨(h.decoded hdec).1, fun i hi => hslot i ▸ (h.decoded hdec).2 i hi⟩
  · rw [hd]
    exact h.short

theorem Entry.of_core {written : Nat} {g : UInt16} {b b' : RxBlock} (hcore : b'.core = b.core)
    (h : Entry code sent written g b) : Entry code sent written g b' := by
  rcases h with h | ⟨blk, hblk, R, hR, h⟩
  · exact Or.inl fun data => (h data).of_core hcore
  · exact Or.inr ⟨blk, hblk, R, hR, h.of_core hcore⟩

theorem Blank.undecoded (hk : 0 < k) {b : RxBlock} (h : Blank code b) : b.decoded = false := by
  cases hd : b.decoded with
  | false => rfl
  | true =>
    have hcard := ((h []).decoded hd).1
    simp at hcard
    omega

/-- A decoded entry is filled by the block its group stands for. -/
theorem Entry.of_decoded (hk : 0 < k) {written : Nat} {g : UInt16} {b : RxBlock}
    (h : Entry code sent written g b) (hd : b.decoded = true) :
    ∃ blk, sent[blockOf written g]? = some blk ∧ Filling code blk b := by
  rcases h with h | h
  · rw [h.undecoded hk] at hd
    cases hd
  · exact h

theorem Entry.extend {sent' : List Block} (hpre : sent <+: sent') {written : Nat} {g : UInt16}
    {b : RxBlock} (h : Entry code sent written g b) : Entry code sent' written g b := by
  rcases h with h | ⟨blk, hblk, hfill⟩
  · exact Or.inl h
  · obtain ⟨rest, rfl⟩ := hpre
    exact Or.inr ⟨blk, List.getElem?_append_left (List.getElem?_eq_some_iff.mp hblk).1 ▸ hblk,
      hfill⟩

theorem bytesBefore_extend {sent' : List Block} (hpre : sent <+: sent') {w : Nat}
    (hw : w ≤ sent.length) :
    bytesBefore sent' w = bytesBefore sent w := by
  obtain ⟨rest, rfl⟩ := hpre
  rw [bytesBefore, List.take_append_of_le_length hw, bytesBefore]

theorem bytesBefore_succ {w : Nat} {blk : Block} (h : sent[w]? = some blk) :
    bytesBefore sent (w + 1) = bytesBefore sent w ++ blk.bytes := by
  simp [bytesBefore, List.take_add_one, h]

theorem bytesBefore_isPrefix (w : Nat) : bytesBefore sent w <+: sent.flatMap Block.bytes := by
  conv_rhs => rw [← List.take_append_drop w sent, List.flatMap_append]
  exact List.prefix_append _ _

theorem RxInv.extend {sent' : List Block} (hpre : sent <+: sent') {r : Receiver}
    (h : RxInv code sent r) :
    RxInv code sent' r := by
  have hbytes := bytesBefore_extend hpre h.le
  have hget : ∀ blk, sent[r.written]? = some blk → sent'[r.written]? = some blk := by
    intro blk hblk
    obtain ⟨rest, rfl⟩ := hpre
    rw [List.getElem?_append_left (List.getElem?_eq_some_iff.mp hblk).1, hblk]
  refine ⟨h.next, Nat.le_trans h.le hpre.length_le, fun g b hb => (h.entries g b hb).extend hpre,
    ?_⟩
  have hp := h.progress
  unfold Progress at hp ⊢
  split at hp
  all_goals
    first
    | obtain ⟨hcur, blk, hblk, hout⟩ := hp
      exact ⟨hcur, blk, hget blk hblk, by rw [hbytes]; exact hout⟩
    | rw [hbytes]; exact hp

theorem SameCores.decoded {t t' : Table UInt16 RxBlock} (h : SameCores t t') {g : UInt16}
    (hd : ∃ b, t.lookup g = some b ∧ b.decoded = true) :
    ∃ b, t'.lookup g = some b ∧ b.decoded = true := by
  obtain ⟨b, hb, hd⟩ := hd
  have hg := h g
  rw [hb, Option.map_some] at hg
  obtain ⟨b', hb', hcore⟩ := Option.map_eq_some_iff.mp hg
  exact ⟨b', hb', (RxBlock.core_fields hcore).2.2.2.1.trans hd⟩

/-- A change of the blocks that keeps the writer's block decoded. -/
theorem Progress.of_atBlock {r r' : Receiver} (h : Progress sent r) (hwr : r'.written = r.written)
    (ho : r'.tcpOut = r.tcpOut) (hw : r'.writer = r.writer) (hcur : AtBlock r → AtBlock r') :
    Progress sent r' := by
  unfold Progress at h ⊢
  rw [hw, hwr, ho]
  split at h
  all_goals
    first
    | exact ⟨hcur h.1, h.2⟩
    | exact h

theorem RxInv.of_sameCores {r r' : Receiver} (h : RxInv code sent r)
    (hn : r'.nextWriteGrp = r.nextWriteGrp) (hwr : r'.written = r.written)
    (ho : r'.tcpOut = r.tcpOut) (hw : r'.writer = r.writer)
    (hs : SameCores r.rxBlocks r'.rxBlocks) : RxInv code sent r' := by
  refine ⟨by rw [hn, hwr]; exact h.next, by rw [hwr]; exact h.le, ?_, ?_⟩
  · intro g b' hb'
    obtain ⟨b, hb, hcore⟩ := hs.lookup hb'
    rw [hwr]
    exact (h.entries g b hb).of_core hcore
  · refine h.progress.of_atBlock hwr ho hw fun hcur => ?_
    rw [AtBlock, Receiver.current, hn]
    exact hs.decoded hcur

theorem RxInv.writing (hk : 0 < k) {r : Receiver} (h : RxInv code sent r) {b : RxBlock}
    (hb : r.current = some b) (hd : b.decoded = true) :
    ∃ blk, sent[r.written]? = some blk ∧ Filling code blk b := by
  obtain ⟨blk, hblk, hfill⟩ := (h.entries _ b hb).of_decoded hk hd
  rw [h.next, blockOf_ofNat (Nat.le_refl _) (by omega)] at hblk
  exact ⟨blk, hblk, hfill⟩

/-- What the writer takes out of a slot is the read that was framed into it. -/
theorem Filling.extract {blk : Block} {b : RxBlock} (hwf : blk.WF rs k) (h : Filling code blk b)
    (hd : b.decoded = true) {i : Nat} (hi : i < k) :
    extract (b.slot i) = unframe (blk.data.getD i []) ∧
      blk.data.take (i + 1) = blk.data.take i ++ [blk.data.getD i []] := by
  obtain ⟨R, -, h⟩ := h
  obtain ⟨d, hlen, hf⟩ := hwf.framed _ (getD_mem_data hwf.length_data hi)
  constructor
  · rw [extract_slot hwf.length_data h hd hi hf hlen, hf, unframe_frame]
  · have hi' : i < blk.data.length := hwf.length_data ▸ hi
    rw [List.take_add_one, List.getD_eq_getElem?_getD, List.getElem?_eq_getElem hi']
    rfl

/-- The writer in front of slot `i`: its block, and what has been written so far. -/
theorem RxInv.at_slot (hk : 0 < k) {r : Receiver} (h : RxInv code sent r) {i : Nat}
    (hw : r.writer = .write i) {b : RxBlock} (hb : r.current = some b) :
    b.decoded = true ∧ b.k = k ∧ ∃ blk, sent[r.written]? = some blk ∧ Filling code blk b ∧
      r.tcpOut = bytesBefore sent r.written ++ (blk.data.take i).flatMap unframe := by
  have hp := h.progress
  simp only [Progress, AtBlock, hw, hb, Option.some.injEq, exists_eq_left'] at hp
  obtain ⟨hdec, blk, hblk, hout⟩ := hp
  obtain ⟨blk', hblk', hfill⟩ := h.writing hk hb hdec
  obtain rfl : blk = blk' := Option.some.inj (hblk.symm.trans hblk')
  have hbk : b.k = k := by
    obtain ⟨R, -, hh⟩ := hfill
    exact hh.k_eq
  exact ⟨hdec, hbk, blk, hblk, hfill, hout⟩

theorem Receiver.Move.rxInv (hk : 0 < k) (hblocks : ∀ blk ∈ sent, blk.WF rs k)
    {done closeRecv : Bool} {r r' : Receiver} (hm : Move done closeRecv r r')
    (h : RxInv code sent r) : RxInv code sent r' := by
  have hp := h.progress
  cases hm with
  | timers t cbs naks hsame => exact h.of_sameCores rfl rfl rfl rfl hsame
  | stay => exact h
  | cancelled hw _ =>
    simp only [Progress, hw] at hp
    exact ⟨h.next, h.le, h.entries, hp⟩
  | take hw b hb hdec =>
    simp only [Progress, hw] at hp
    obtain ⟨blk, hblk, -⟩ := h.writing hk hb hdec
    exact ⟨h.next, h.le, h.entries, ⟨b, hb, hdec⟩, blk, hblk, by simpa using hp⟩
  | close hw _ _ _ =>
    simp only [Progress, hw] at hp
    exact ⟨h.next, h.le, h.entries, hp⟩
  | slot i hw b hb hi =>
    obtain ⟨hdec, hbk, blk, hblk, hfill, hout⟩ := h.at_slot hk hw hb
    obtain ⟨hext, htake⟩ := hfill.extract (hblocks blk (List.mem_of_getElem? hblk)) hdec (hbk ▸ hi)
    refine ⟨h.next, h.le, h.entries, ⟨b, hb, hdec⟩, blk, hblk, ?_⟩
    simp only [hout, hext, htake, List.flatMap_append, List.append_assoc]
    simp
  | slotsDone i hw b hb hi =>
    obtain ⟨hdec, hbk, blk, hblk, -, hout⟩ := h.at_slot hk hw hb
    have hlen := (hblocks blk (List.mem_of_getElem? hblk)).length_data
    refine ⟨h.next, h.le, h.entries, ⟨b, hb, hdec⟩, blk, hblk, ?_⟩
    rw [List.take_of_length_le (by omega)] at hout
    exact hout
  | fail i m hw b hb hi hm =>
    obtain ⟨hdec, hbk, blk, hblk, hfill, hout⟩ := h.at_slot hk hw hb
    obtain ⟨hext, htake⟩ := hfill.extract (hblocks blk (List.mem_of_getElem? hblk)) hdec (hbk ▸ hi)
    have hnext : (blk.data.take (i + 1)).flatMap unframe <+: blk.bytes := by
      conv_rhs => rw [Block.bytes, ← List.take_append_drop (i + 1) blk.data, List.flatMap_append]
      exact List.prefix_append _ _
    have hsplit : (blk.data.take (i + 1)).flatMap unframe =
        (blk.data.take i).flatMap unframe ++ extract (b.slot i) := by
      rw [htake, List.flatMap_append, hext]
      simp
    rw [hsplit] at hnext
    refine ⟨h.next, h.le, h.entries, ⟨b, hb, hdec⟩, blk, hblk, ?_, fun heq => ?_⟩
    · show r.tcpOut ++ _ <+: _
      rw [hout, List.append_assoc, List.prefix_append_right_inj]
      exact List.IsPrefix.trans (by simpa using List.take_prefix m _) hnext
    · -- the slot is not written to its end
      change r.tcpOut ++ _ = _ at heq
      rw [hout, List.append_assoc, List.append_cancel_left_eq] at heq
      have hlen := hnext.length_le
      rw [← heq, List.length_append, List.length_append, List.length_take] at hlen
      omega
  | unreported t hw hsame =>
    have h' : RxInv code sent { r with rxBlocks := t } := h.of_sameCores rfl rfl rfl rfl hsame
    have hp' := h'.progress
    simp only [Progress, hw] at hp'
    exact ⟨h'.next, h'.le, h'.entries, hp'⟩
  | reported t naks hw hsame =>
    have h' : RxInv code sent { r with rxBlocks := t, nakChecks := naks } :=
      h.of_sameCores rfl rfl rfl rfl hsame
    have hp' := h'.progress
    simp only [Progress, hw] at hp'
    exact ⟨h'.next, h'.le, h'.entries, hp'⟩
  | advance t hw hsame =>
    have h' : RxInv code sent { r with rxBlocks := t } := h.of_sameCores rfl rfl rfl rfl hsame
    have hdone : ∃ blk, sent[r.written]? = some blk ∧
        r.tcpOut = bytesBefore sent r.written ++ blk.bytes := by
      rcases hw with hw | hw
      · simp only [Progress, hw] at hp
        exact hp.2
      · simp only [Progress, hw] at hp
        exact hp.2
    obtain ⟨blk, hblk, hout⟩ := hdone
    refine ⟨?_, (List.getElem?_eq_some_iff.mp hblk).1, ?_, ?_⟩
    · show r.nextWriteGrp + 1 = UInt16.ofNat (r.written + 1)
      rw [h.next, UInt16.ofNat_add]
      rfl
    · intro g b hb
      change (t.erase r.nextWriteGrp).lookup g = some b at hb
      rw [lookup_erase_eq] at hb
      split at hb
      · cases hb
      · rename_i hne
        have hentry := h'.entries g b hb
        rw [h.next] at hne
        change Entry code sent (r.written + 1) g b
        unfold Entry
        rw [blockOf_succ hne]
        exact hentry
    · show r.tcpOut = bytesBefore sent (r.written + 1)
      rw [hout, bytesBefore_succ hblk]
  | leave why hw =>
    simp only [Progress, hw] at hp
    refine ⟨h.next, h.le, h.entries, ?_⟩
    cases why <;> exact hp

end Invariant

theorem RxInv.tcpOut_isPrefix {k n : Nat} {code : Code UInt8 k n} {sent : List Block} {r : Receiver}
    (h : RxInv code sent r) : r.tcpOut <+: sent.flatMap Block.bytes := by
  have hp := h.progress
  unfold Progress at hp
  split at hp
  · obtain ⟨-, blk, hblk, hout⟩ := hp
    rename_i i _
    refine List.IsPrefix.trans ?_ (bytesBefore_isPrefix (r.written + 1))
    rw [hout, bytesBefore_succ hblk, List.prefix_append_right_inj]
    conv_rhs => rw [Block.bytes, ← List.take_append_drop i blk.data, List.flatMap_append]
    exact List.prefix_append _ _
  all_goals
    first
    | obtain ⟨-, blk, hblk, hout⟩ := hp
      rw [hout, ← bytesBefore_succ hblk]
      exact bytesBefore_isPrefix _
    | obtain ⟨-, blk, hblk, hout, -⟩ := hp
      rw [← bytesBefore_succ hblk] at hout
      exact hout.trans (bytesBefore_isPrefix _)
    | rw [hp]; exact bytesBefore_isPrefix _

/-! ## Receiving -/

theorem RxBlock.tryDecodeBlock_decoded {rs : ReedSolomon} {b : RxBlock} (h : b.decoded = true) :
    (b.tryDecodeBlock rs).decoded = true := by
  unfold RxBlock.tryDecodeBlock
  split
  · rfl
  · simp only
    split
    · exact h
    · split
      · exact h
      · rfl

theorem RxBlock.receive_decoded {rs : ReedSolomon} {b : RxBlock} (h : b.decoded = true)
    (p : Packet) :
    (b.receive rs p).decoded = true := by
  have hs : (b.store p.idx.toNat p.payload).decoded = true := by rw [b.store_decoded]; exact h
  unfold RxBlock.receive
  simp only
  split
  · exact tryDecodeBlock_decoded hs
  · exact hs

theorem Receiver.noteGroup_eq (r : Receiver) (g : UInt16) :
    ∃ top has, r.noteGroup g = { r with maxRecvGrp := top, hasRecv := has } := by
  unfold Receiver.noteGroup
  split
  · exact ⟨_, _, rfl⟩
  · split
    · exact ⟨_, _, rfl⟩
    · exact ⟨_, _, rfl⟩

/-- What a DATA packet can do to the receiving half. -/
inductive Receiver.Intake (rs : ReedSolomon) (cfg : Config) (r : Receiver) (p : Packet) :
    Receiver → Prop
  | closed (hclosed : r.recvClosed = true) : Intake rs cfg r p r
  | old (hold : after r.nextWriteGrp p.groupID = true) : Intake rs cfg r p (r.noteGroup p.groupID)
  | take (hnew : after r.nextWriteGrp p.groupID = false) :
      Intake rs cfg r p { r.noteGroup p.groupID with
        rxBlocks := r.rxBlocks.insert p.groupID ((r.blockFor cfg p.groupID).receive rs p) }

theorem Receiver.handleDataPacket_intake (rs : ReedSolomon) (cfg : Config) (r : Receiver)
    (p : Packet) :
    Intake rs cfg r p (r.handleDataPacket rs cfg p) := by
  cases hopen : r.recvClosed with
  | true =>
    simp only [handleDataPacket, hopen, ↓reduceIte]
    exact .closed hopen
  | false =>
    cases hold : after r.nextWriteGrp p.groupID with
    | true =>
      simp only [handleDataPacket, hopen, noteGroup_nextWriteGrp, hold, ↓reduceIte]
      exact .old hold
    | false =>
      rw [handleDataPacket_accept hopen hold]
      exact .take hold

theorem Receiver.Intake.writer {rs : ReedSolomon} {cfg : Config} {r r' : Receiver} {p : Packet}
    (h : Intake rs cfg r p r') : r'.writer = r.writer := by
  obtain ⟨top, has, hnote⟩ := r.noteGroup_eq p.groupID
  cases h with
  | closed => rfl
  | old => rw [hnote]
  | take => rw [hnote]

theorem Receiver.Intake.atBlock {rs : ReedSolomon} {cfg : Config} {r r' : Receiver} {p : Packet}
    (h : Intake rs cfg r p r') (hat : AtBlock r) : AtBlock r' := by
  obtain ⟨top, has, hnote⟩ := r.noteGroup_eq p.groupID
  cases h with
  | closed => exact hat
  | old => rwa [hnote]
  | take =>
    obtain ⟨e, he, hdec⟩ := hat
    rw [Receiver.current] at he
    rw [hnote, AtBlock, Receiver.current]
    simp only [lookup_insert_eq]
    split
    · rename_i hg
      refine ⟨_, rfl, RxBlock.receive_decoded ?_ p⟩
      rw [Receiver.blockFor, ← hg, he]
      exact hdec
    · exact ⟨e, he, hdec⟩

section Receive

variable {rs : ReedSolomon} {lc : LinkConfig} {n : Nat} {code : Code UInt8 lc.fecK n} {x y : Side}
  {sent : List Block} {r : Receiver} {b : Nat} {p : Packet}

theorem FromBlock.groupID (hp : FromBlock (lc.side x) sent b p) : p.groupID = UInt16.ofNat b := by
  obtain ⟨blk, -, hp⟩ := hp
  obtain ⟨parityShards, i, -, -, -, hpkt⟩ := mem_packetsAt hp
  rw [hpkt]

theorem FromBlock.type (hp : FromBlock (lc.side x) sent b p) : p.type = .data := by
  obtain ⟨blk, -, hp⟩ := hp
  obtain ⟨parityShards, i, -, -, -, hpkt⟩ := mem_packetsAt hp
  rw [hpkt]

theorem receive_filling (himpl : Implements rs code) (hv : (lc.side x).Valid n) {blk : Block}
    (hfl : Flushed rs (lc.side x) blk) (hp : p ∈ blk.packets (lc.side x) b) {e : RxBlock}
    {R : Finset Nat} (he : Holding code blk.data R e) : Filling code blk (e.receive rs p) := by
  have hm := hfl.m_le
  have hrows := hv.le_rows
  have hidx := hv.le_idx
  obtain ⟨-, hlt, hpay⟩ := packet_shard himpl hfl.toWF hv.one_le (Nat.le_trans (by omega) hrows)
    (Nat.le_trans (by omega) hidx) hp
  exact ⟨_, Finset.insert_nonempty _ _,
    receive_holding himpl hfl.length_data (hfl.toWF.maxLen_pos hv.one_le) he hlt hpay⟩

/-- The entry an accepted packet meets, existing or fresh, holds shards of its block. -/
theorem RxInv.blockFor (hv : (lc.side y).Valid n) (h : RxInv code sent r) {blk : Block}
    (hblk : sent[b]? = some blk) (hle : r.written ≤ b) (hlt : b < r.written + 65536) :
    ∃ R, Holding code blk.data R (r.blockFor (lc.side y) (UInt16.ofNat b)) := by
  unfold Receiver.blockFor
  cases hb : r.rxBlocks.lookup (UInt16.ofNat b) with
  | none => exact ⟨∅, newRxBlock_holding (lc.side y) _ _ hv.one_le hv.le_rows code⟩
  | some e =>
    rcases h.entries _ e hb with he | ⟨blk', hblk', R, -, he⟩
    · exact ⟨∅, he _⟩
    · rw [blockOf_ofNat hle hlt, hblk] at hblk'
      cases hblk'
      exact ⟨R, he⟩

/-- A packet of block `b` that is taken is not behind the writer. -/
theorem RxInv.intake (h : RxInv code sent r) (hp : FromBlock (lc.side x) sent b p)
    (hlo : r.written ≤ b + 32767) {r' : Receiver} (hin : Receiver.Intake rs (lc.side y) r p r') :
    r' = r ∨
    (after r.nextWriteGrp (UInt16.ofNat b) = true ∧ r' = r.noteGroup (UInt16.ofNat b)) ∨
    (r.written ≤ b ∧ r' = { r.noteGroup (UInt16.ofNat b) with
      rxBlocks := r.rxBlocks.insert (UInt16.ofNat b)
        ((r.blockFor (lc.side y) (UInt16.ofNat b)).receive rs p) }) := by
  have hg := hp.groupID
  cases hin with
  | closed => exact Or.inl rfl
  | old hold => exact Or.inr (Or.inl (by rw [← hg]; exact ⟨hold, rfl⟩))
  | take hnew =>
    refine Or.inr (Or.inr ⟨?_, by rw [hg]⟩)
    by_contra hlt
    rw [h.next, hg, after_eq_true_of_lt (by omega) hlo] at hnew
    cases hnew

/-- **Step lemma for a DATA packet.** It belongs to block `b` of the sender, which is
less than half a turn behind the writer and less than a turn ahead of it. -/
theorem handleDataPacket_rxInv (himpl : Implements rs code) (hv : ∀ x, (lc.side x).Valid n)
    (hblocks : ∀ blk ∈ sent, Flushed rs (lc.side x) blk) (h : RxInv code sent r)
    (hp : FromBlock (lc.side x) sent b p) (hlo : r.written ≤ b + 32767)
    (hhi : b < r.written + 65536) :
    RxInv code sent (r.handleDataPacket rs (lc.side y) p) := by
  have hin := r.handleDataPacket_intake rs (lc.side y) p
  have hcases := h.intake hp hlo hin
  have hat := hin.atBlock
  generalize r.handleDataPacket rs (lc.side y) p = r' at hin hcases hat
  obtain ⟨blk, hblk, hmem⟩ := hp
  obtain ⟨top, has, hnote⟩ := r.noteGroup_eq (UInt16.ofNat b)
  rcases hcases with rfl | ⟨-, rfl⟩ | ⟨hle, rfl⟩
  · exact h
  · rw [hnote]
    exact ⟨h.next, h.le, h.entries, h.progress⟩
  · obtain ⟨R, hhold⟩ := h.blockFor (hv y) hblk hle hhi
    have hfill := receive_filling himpl (hv x) (hblocks blk (List.mem_of_getElem? hblk)) hmem hhold
    rw [hnote] at hat ⊢
    refine ⟨h.next, h.le, ?_, h.progress.of_atBlock rfl rfl rfl hat⟩
    intro g e he
    simp only [lookup_insert_eq] at he
    split at he
    · rename_i hgb
      cases he
      refine Or.inr ⟨blk, ?_, hfill⟩
      rw [hgb]
      exact (blockOf_ofNat hle hhi).symm ▸ hblk
    · exact h.entries g e he

theorem startInit_rxInv (hv : (lc.side y).Valid n) (h : RxInv code sent r) :
    RxInv code sent (Receiver.startInit (lc.side y) r) := by
  unfold Receiver.startInit
  split
  · rename_i hempty
    have hnone : ∀ g, r.rxBlocks.lookup g = none := lookup_of_isEmpty hempty
    refine ⟨h.next, h.le, ?_, ?_⟩
    · intro g e he
      change (r.rxBlocks.insert 0 _).lookup g = some e at he
      rw [lookup_insert_eq, hnone] at he
      split at he
      · cases he
        rw [startRxBlock_eq]
        exact Or.inl fun data => newRxBlock_holding (lc.side y) 0 data hv.one_le hv.le_rows code
      · cases he
    · refine h.progress.of_atBlock rfl rfl rfl ?_
      rintro ⟨e, he, -⟩
      rw [Receiver.current, hnone] at he
      cases he
  · exact h

end Receive

end TcpPep
