import TcpPep.Proxy.Slots

/-!
The link quality reports of a session.

Every receive block is to be reported once, by its LQR timer or by the writer before it deletes the
block, whichever takes the lock first; the report starts the periodic NAK checks of the block.
`Reporting` runs a session and keeps book of the present block of each group: the packets that
came for it, the reports it caused and the NAK chains it started.

* `reporting`: the session with its book;
* `Receiver.Touch`, `touch_of_step`: what a step of the receiving half does to the blocks;
* `Life.Of`, `recorded_of_reach`: the book agrees with the block;
* `one_report_per_block`: one LQR and one NAK chain for each block, and no block removed before.
-/

namespace TcpPep

open Protocol Fec FiniteMap Events

/-! ## The book of a block -/

/-- What has happened to the present block of a group. -/
structure Life where
  /-- the indices of which a packet has come -/
  arrived : Finset Nat := ∅
  /-- those of them whose packet went into an empty slot -/
  counted : Finset Nat := ∅
  /-- LQR packets sent -/
  lqrs : Nat := 0
  /-- periodic NAK chains started -/
  chains : Nat := 0
  deriving DecidableEq

def Life.arrive (l : Life) (stored : Bool) (idx : Nat) : Life :=
  { l with arrived := insert idx l.arrived, counted := if stored then insert idx l.counted
    else l.counted }

/-- Whether `HandleDataPacket` puts the payload into its slot. -/
def Receiver.stores (cfg : Config) (r : Receiver) (p : Packet) : Bool :=
  !r.recvClosed && !after r.nextWriteGrp p.groupID &&
    ((r.blockFor cfg p.groupID).slot p.idx.toNat).isNone

/-- The group and the losses of an LQR datagram. -/
def lqrOf (a : Bytes) : Option (UInt16 × UInt8) :=
  match unmarshal a with
  | .ok p => if p.type = .lqr then some (p.groupID, p.losses) else none
  | .error _ => none

structure Reporting where
  session : Session
  life : UInt16 → Life := fun _ => {}

namespace Reporting

variable (rs : ReedSolomon) (cfg : Config)

/-- The book of group `g` after a step to `s'`. A group without a block has none. -/
def observe (s : Reporting) (e : SessionEvent) (s' : Session) (out : List Bytes) (g : UInt16) :
    Life :=
  match s'.rx.rxBlocks.lookup g with
  | none => {}
  | some _ =>
    let l := s.life g
    match e with
    | .recv p =>
      if p.type = .data ∧ p.groupID = g then l.arrive (s.session.rx.stores cfg p) p.idx.toNat else l
    | .rx _ =>
      { l with lqrs := l.lqrs + (out.filterMap lqrOf).countP fun x => x.1 = g
               chains := l.chains + (s'.rx.nakChecks.count g - s.session.rx.nakChecks.count g) }
    | _ => l

def step (s : Reporting) (e : SessionEvent) : Option (Reporting × List Bytes) :=
  (s.session.step rs cfg e).map fun r => (⟨r.1, s.observe cfg e r.1 r.2⟩, r.2)

end Reporting

/-- A session and the book of its blocks. -/
def reporting (rs : ReedSolomon) (cfg : Config) : Machine Reporting SessionEvent where
  init := { session := newSession cfg }
  step s e := (s.step rs cfg e).map Prod.fst

theorem Reporting.session_step {rs : ReedSolomon} {cfg : Config} {s t : Reporting}
    {e : SessionEvent} {out : List Bytes} (hs : s.step rs cfg e = some (t, out)) :
    s.session.step rs cfg e = some (t.session, out) ∧ t.life = s.observe cfg e t.session out := by
  obtain ⟨⟨s', out'⟩, hstep, heq⟩ := Option.map_eq_some_iff.mp hs
  cases heq
  exact ⟨hstep, rfl⟩

namespace Receiver

variable {cfg : Config} {r r' : Receiver} {out : List Bytes}

/-- The ways a step of the receiving half can touch the blocks and the NAK schedule, with what
brings the writer to `finish`. -/
inductive Touch (cfg : Config) (r : Receiver) : Receiver → List Bytes → Prop
  | quiet (r' : Receiver) (out : List Bytes) (htable : r'.rxBlocks = r.rxBlocks)
      (hnext : r'.nextWriteGrp = r.nextWriteGrp) (hw : r'.writer = .finish → r.writer = .finish ∨
        ∀ b, r.current = some b → b.lqrReported = true)
      (hnaks : ∀ g, r'.nakChecks.count g ≤ r.nakChecks.count g)
        (hout : ∀ a ∈ out, ∃ q, marshal (nakPacket cfg q) = .ok a) :
      Touch cfg r r' out
  | timer (g : UInt16) (b : RxBlock) (t : LqrTimer) (r' : Receiver)
      (hb : r.rxBlocks.lookup g = some b)
      (htable : r'.rxBlocks = r.rxBlocks.insert g { b with lqrTimer := t })
      (hnext : r'.nextWriteGrp = r.nextWriteGrp) (hw : r'.writer = .finish → r.writer = .finish)
      (hnaks : r'.nakChecks = r.nakChecks) : Touch cfg r r' []
  | report (g : UInt16) (b : RxBlock) (r' : Receiver) (hb : r.rxBlocks.lookup g = some b)
      (hnew : b.lqrReported = false)
      (htable : r'.rxBlocks = r.rxBlocks.insert g { b with lqrReported := true })
      (hnext : r'.nextWriteGrp = r.nextWriteGrp) (hw : r'.writer = .finish → r.writer = .finish ∨
        g = r.nextWriteGrp)
      (hnaks : r'.nakChecks = r.nakChecks ++ [g]) :
      Touch cfg r r' (sendPacketDirect (lqrPacket cfg g b.losses))
  | remove (r' : Receiver) (hdone : r.writer = .finish ∨ ∃ b, r.current = some b ∧
      b.lqrReported = true) (htable :
      ∀ g, r'.rxBlocks.lookup g = if g = r.nextWriteGrp then none else r.rxBlocks.lookup g)
      (hw : r'.writer ≠ .finish) (hnaks : r'.nakChecks = r.nakChecks) : Touch cfg r r' []

theorem touch_writer (htable : r'.rxBlocks = r.rxBlocks) (hnext : r'.nextWriteGrp = r.nextWriteGrp)
    (hnaks : r'.nakChecks = r.nakChecks) (hw : r'.writer = .finish → r.writer = .finish) :
    Touch cfg r r' [] :=
  .quiet r' [] htable hnext (fun h => Or.inl (hw h)) (fun _ => by rw [hnaks]) (by simp)

/-- `handleLQRTimeout` reports a block that is there and not reported, and does nothing otherwise.
-/
theorem touch_handleLQRTimeout (r : Receiver) (g : UInt16) (cbs : List UInt16) (w : Writer)
    (hw : w = .finish → r.writer = .finish ∨ g = r.nextWriteGrp) :
    Touch cfg r { (handleLQRTimeout cfg { r with lqrCallbacks := cbs } g).state with writer := w }
      (handleLQRTimeout cfg { r with lqrCallbacks := cbs } g).out := by
  unfold handleLQRTimeout
  split
  · rename_i hnone
    refine .quiet _ _ rfl rfl (fun h => (hw h).imp_right ?_) (fun _ => Nat.le_refl _) (by simp)
    rintro rfl b hb
    rw [current, hnone] at hb
    cases hb
  · rename_i b hb
    split
    · rename_i hrep
      refine .quiet _ _ rfl rfl (fun h => (hw h).imp_right ?_) (fun _ => Nat.le_refl _) (by simp)
      rintro rfl b' hb'
      rw [current, hb] at hb'
      cases hb'
      exact hrep
    · rename_i hnew
      exact .report g b _ hb (by simpa using hnew) rfl rfl hw rfl

theorem touch_sendNakPeriodic (done : Bool) (r : Receiver) (g : UInt16) :
    Touch cfg r (sendNakPeriodic cfg done r g).state (sendNakPeriodic cfg done r g).out := by
  have hgone : Touch cfg r { r with nakChecks := r.nakChecks.erase g } [] :=
    .quiet _ _ rfl rfl Or.inl (fun _ => List.erase_sublist.count_le _) (by simp)
  unfold sendNakPeriodic
  simp only
  split
  · exact hgone
  · split
    · exact hgone
    · split
      · exact hgone
      · split
        · refine .quiet _ _ rfl rfl Or.inl (fun _ => Nat.le_refl _) ?_
          intro a ha
          obtain ⟨i, -, ha⟩ := List.mem_flatMap.mp ha
          exact ⟨_, mem_sendPacketDirect.mp ha⟩
        · exact touch_writer rfl rfl rfl id

/-- A step of the receiving half, as its blocks see it. -/
theorem touch_of_step {done closeRecv : Bool} {e : RxEvent} {eff : Effect Receiver}
    (h : r.step cfg done closeRecv e = some eff) : Touch cfg r eff.state eff.out := by
  cases e with
  | lqrFire g =>
    simp only [step] at h
    split at h
    · rename_i b hb
      simp only [Option.ite_none_right_eq_some, Option.some.injEq] at h
      obtain ⟨-, rfl⟩ := h
      exact .timer g b .fired _ hb rfl rfl id rfl
    · cases h
  | lqrRun g =>
    simp only [step, Option.ite_none_right_eq_some, Option.some.injEq] at h
    obtain ⟨-, rfl⟩ := h
    obtain ⟨t, naks, heq, -⟩ :=
      handleLQRTimeout_eq cfg { r with lqrCallbacks := r.lqrCallbacks.erase g } g
    have htouch := @touch_handleLQRTimeout cfg r g (r.lqrCallbacks.erase g) r.writer Or.inl
    rw [heq] at htouch ⊢
    exact htouch
  | nakRun g =>
    simp only [step, Option.ite_none_right_eq_some, Option.some.injEq] at h
    obtain ⟨-, rfl⟩ := h
    exact touch_sendNakPeriodic done r g
  | wait =>
    simp only [step, Option.ite_none_right_eq_some, Option.some.injEq] at h
    obtain ⟨-, rfl⟩ := h
    unfold waitStep
    simp only
    split
    · exact touch_writer rfl rfl rfl (by simp)
    · split
      · exact touch_writer rfl rfl rfl (by simp)
      · split
        · exact touch_writer rfl rfl rfl (by simp)
        · exact touch_writer rfl rfl rfl id
  | slot =>
    simp only [step] at h
    split at h
    · split at h
      · split at h <;> cases h
        exact touch_writer rfl rfl rfl (by simp)
      · cases h
        exact touch_writer rfl rfl rfl (by simp)
    · cases h
  | slotError n =>
    simp only [step] at h
    split at h
    · simp only [Option.ite_none_right_eq_some, Option.some.injEq] at h
      obtain ⟨-, rfl⟩ := h
      exact touch_writer rfl rfl rfl (by simp)
    · cases h
  | cleanup =>
    simp only [step] at h
    split at h
    · rename_i b hw hb
      split at h
      · rename_i hrep
        cases h
        refine .remove _ (Or.inr ⟨b, hb, hrep⟩) ?_ (by simp [advance]) rfl
        intro g
        simp only [advance, lookup_erase_eq, lookup_insert_eq]
        split <;> rfl
      · cases h
        exact .timer _ b _ _ hb rfl rfl (by simp) rfl
    · cases h
  | report =>
    simp only [step, Option.ite_none_right_eq_some, Option.some.injEq] at h
    obtain ⟨-, rfl⟩ := h
    exact touch_handleLQRTimeout r r.nextWriteGrp r.lqrCallbacks .finish fun _ => Or.inr rfl
  | finish =>
    simp only [step, Option.ite_none_right_eq_some, Option.some.injEq] at h
    obtain ⟨hw, rfl⟩ := h
    refine .remove _ (Or.inl hw) ?_ (by simp [advance]) rfl
    intro g
    simp only [advance, lookup_erase_eq]
  | leave =>
    simp only [step] at h
    split at h
    · cases h
      exact touch_writer rfl rfl rfl (by simp)
    · cases h

end Receiver

/-! ## LQR datagrams -/

theorem filterMap_lqrOf (cfg : Config) (g : UInt16) (losses : Nat) :
    (sendPacketDirect (Receiver.lqrPacket cfg g losses)).filterMap lqrOf =
      if cfg.streamID > 0x0FFF then [] else [(g, UInt8.ofNat losses)] := by
  by_cases hid : cfg.streamID > 0x0FFF
  · simp [sendPacketDirect, marshal, Receiver.lqrPacket, hid]
  · cases hm : marshal (Receiver.lqrPacket cfg g losses) with
    | error err => simp [marshal, Receiver.lqrPacket, hid] at hm
    | ok a =>
      have hlqr : lqrOf a = some (g, UInt8.ofNat losses) := by
        rw [lqrOf, unmarshal_marshal_lqr hm]
        rfl
      simp [sendPacketDirect, hm, hlqr, hid]

theorem lqrOf_nak {cfg : Config} {q : UInt8} {a : Bytes}
    (hm : marshal (Receiver.nakPacket cfg q) = .ok a) :
    lqrOf a = none := by
  rw [lqrOf, unmarshal_marshal_nak hm]
  rfl

/-! ## The book agrees with the block -/

namespace Life

/-- A book of block `b`: `ReceivedCnt` counts the packets that were stored, and the flags say what
was sent. -/
structure Of (cfg : Config) (b : RxBlock) (l : Life) : Prop where
  k_eq : b.k = cfg.fecK
  le_length : b.k ≤ b.packets.length
  sub : l.counted ⊆ l.arrived
  card : l.counted.card = b.receivedCnt
  stored : ∀ i ∈ l.counted, (b.slot i).isSome = true
  parity : ∀ i, b.k ≤ i → (b.slot i).isSome = true → i ∈ l.counted
  lqrs : l.lqrs = if b.lqrReported = true ∧ ¬ cfg.streamID > 0x0FFF then 1 else 0
  chains : l.chains = if b.lqrReported = true then 1 else 0

variable {rs : ReedSolomon} {cfg : Config} {b : RxBlock} {l : Life}

theorem of_new (cfg : Config) (g : UInt16) : Of cfg (newRxBlock cfg g) {} where
  k_eq := rfl
  le_length := by simp [newRxBlock]
  sub := Finset.Subset.refl _
  card := rfl
  stored := by simp
  parity := by
    intro i _ hi
    simp [newRxBlock, RxBlock.slot, List.getD_eq_getElem?_getD, List.getElem?_replicate] at hi
    split at hi <;> cases hi
  lqrs := rfl
  chains := rfl

theorem Of.timer (h : l.Of cfg b) (t : LqrTimer) : l.Of cfg { b with lqrTimer := t } :=
  ⟨h.k_eq, h.le_length, h.sub, h.card, h.stored, h.parity, h.lqrs, h.chains⟩

theorem Of.report (h : l.Of cfg b) (hnew : b.lqrReported = false) :
    Of cfg { b with lqrReported := true }
      { l with
        lqrs := l.lqrs + if cfg.streamID > 0x0FFF then 0 else 1
        chains := l.chains + 1 } := by
  refine ⟨h.k_eq, h.le_length, h.sub, h.card, h.stored, h.parity, ?_, ?_⟩
  · have hzero : l.lqrs = 0 := by rw [h.lqrs, hnew]; rfl
    simp only [hzero, true_and]
    split <;> rfl
  · have hzero : l.chains = 0 := by rw [h.chains, hnew]; rfl
    simp [hzero]

theorem Of.arrive_late (h : l.Of cfg b) (idx : Nat) : (l.arrive false idx).Of cfg b :=
  ⟨h.k_eq, h.le_length, h.sub.trans (Finset.subset_insert _ _), h.card, h.stored, h.parity, h.lqrs,
    h.chains⟩

/-- Storing a packet: the slot is filled exactly when it is counted. -/
theorem Of.store (h : l.Of cfg b) (idx : Nat) (payload : Bytes) :
    (l.arrive (b.slot idx).isNone idx).Of cfg (b.store idx payload) := by
  obtain ⟨-, -, hrep⟩ := b.store_frame idx payload
  have hlen : (b.store idx payload).k ≤ (b.store idx payload).packets.length := by
    rw [RxBlock.store_k, RxBlock.length_store]
    exact h.le_length.trans (Nat.le_max_left _ _)
  have hlqrs := h.lqrs
  have hchains := h.chains
  rw [← hrep] at hlqrs hchains
  cases hs : b.slot idx with
  | some q =>
    have hslot : ∀ i, (b.store idx payload).slot i = b.slot i := by
      intro i
      rw [RxBlock.slot_store, if_neg (by simp [hs])]
    refine ⟨(RxBlock.store_k ..).trans h.k_eq, hlen, h.sub.trans (Finset.subset_insert _ _), ?_, ?_,
      ?_, hlqrs, hchains⟩
    · rw [RxBlock.store_receivedCnt, if_neg (by simp [hs])]
      exact h.card
    · intro i hi
      rw [hslot]
      exact h.stored i hi
    · intro i hi
      rw [hslot]
      exact h.parity i (by rwa [RxBlock.store_k] at hi)
  | none =>
    have hfresh : idx ∉ l.counted := by
      intro hmem
      have := h.stored idx hmem
      rw [hs] at this
      cases this
    refine ⟨(RxBlock.store_k ..).trans h.k_eq, hlen, Finset.insert_subset_insert _ h.sub, ?_, ?_,
      ?_, hlqrs, hchains⟩
    · rw [RxBlock.store_receivedCnt, if_pos hs, ← h.card]
      exact Finset.card_insert_of_notMem hfresh
    · intro i hi
      rw [RxBlock.slot_store]
      rcases Finset.mem_insert.mp hi with rfl | hi
      · rw [if_pos ⟨rfl, hs⟩]
        rfl
      · split
        · rfl
        · exact h.stored i hi
    · intro i hi hfull
      rw [RxBlock.slot_store] at hfull
      refine Finset.mem_insert.mpr ?_
      split at hfull
      · rename_i hc
        exact Or.inl hc.1
      · exact Or.inr (h.parity i (by rwa [RxBlock.store_k] at hi) hfull)

/-- Reconstruction fills data slots and counts nothing. -/
theorem Of.decode (h : l.Of cfg b) : l.Of cfg (b.tryDecodeBlock rs) := by
  have hd := RxBlock.decoded_tryDecodeBlock rs b
  have hkeep : ∀ {i q}, b.slot i = some q → (b.tryDecodeBlock rs).slot i = some q :=
    hd.slot h.le_length
  have hstored : ∀ i ∈ l.counted, ((b.tryDecodeBlock rs).slot i).isSome = true := by
    intro i hi
    obtain ⟨q, hq⟩ := Option.isSome_iff_exists.mp (h.stored i hi)
    rw [hkeep hq]
    rfl
  generalize b.tryDecodeBlock rs = b' at hd hstored
  cases hd with
  | whole hall => exact ⟨h.k_eq, h.le_length, h.sub, h.card, hstored, h.parity, h.lqrs, h.chains⟩
  | failed => exact h
  | restored len shards hrec =>
    refine ⟨h.k_eq, ?_, h.sub, h.card, hstored, ?_, h.lqrs, h.chains⟩
    · simpa using h.le_length
    · intro i hi hfull
      replace hfull : (List.getD _ i none).isSome = true := hfull
      rw [RxBlock.getD_restored shards h.le_length,
        if_neg (by rintro ⟨hlt, -⟩; exact absurd hi (by simpa using hlt))] at hfull
      exact h.parity i hi hfull

theorem Of.receive (h : l.Of cfg b) (p : Packet) :
    (l.arrive (b.slot p.idx.toNat).isNone p.idx.toNat).Of cfg (b.receive rs p) := by
  have hs := h.store p.idx.toNat p.payload
  unfold RxBlock.receive
  simp only
  split
  · exact hs.decode
  · exact hs

end Life

namespace Reporting

/-- The books of all groups agree with the blocks. -/
structure Recorded (cfg : Config) (s : Reporting) : Prop where
  absent : ∀ g, s.session.rx.rxBlocks.lookup g = none → s.life g = {}
  present : ∀ g b, s.session.rx.rxBlocks.lookup g = some b → (s.life g).Of cfg b

variable {rs : ReedSolomon} {cfg : Config} {s : Reporting} {s' : Session} {out : List Bytes}

theorem recorded_new (cfg : Config) : Recorded cfg { session := newSession cfg } where
  absent := by simp
  present := by simp [newSession]

theorem Recorded.blockFor (h : s.Recorded cfg) (g : UInt16) :
    (s.life g).Of cfg (s.session.rx.blockFor cfg g) := by
  unfold Receiver.blockFor
  cases hb : s.session.rx.rxBlocks.lookup g with
  | none =>
    rw [h.absent g hb]
    exact Life.of_new cfg g
  | some b => exact h.present g b hb

/-- It is enough to look at the groups that have a block after the step. -/
theorem recorded_of {e : SessionEvent}
    (h : ∀ g b, s'.rx.rxBlocks.lookup g = some b → (s.observe cfg e s' out g).Of cfg b) :
    Recorded cfg ⟨s', s.observe cfg e s' out⟩ where
  absent := by
    intro g hg
    simp only at hg
    simp only [observe, hg]
  present := h

theorem Recorded.touch (h : s.Recorded cfg) (e : RxEvent) (ht : s.session.rx.Touch cfg s'.rx out) :
    Recorded cfg ⟨s', s.observe cfg (.rx e) s' out⟩ := by
  refine recorded_of fun g b hb => ?_
  simp only [observe, hb]
  generalize hr' : s'.rx = r' at ht hb ⊢
  cases ht with
  | quiet _ out htable hnext hw hnaks hout =>
    rw [htable] at hb
    have hnone : out.filterMap lqrOf = [] := by
      rw [List.filterMap_eq_nil_iff]
      intro a ha
      obtain ⟨q, hq⟩ := hout a ha
      exact lqrOf_nak hq
    rw [hnone, Nat.sub_eq_zero_of_le (hnaks g)]
    exact h.present g b hb
  | timer g' b₀ t _ hb₀ htable hnext hw hnaks =>
    rw [htable, lookup_insert_eq] at hb
    rw [hnaks, Nat.sub_self]
    split at hb
    · rename_i heq
      cases hb
      rw [heq]
      exact (h.present g' b₀ hb₀).timer t
    · exact h.present g b hb
  | report g' b₀ _ hb₀ hnew htable hnext hw hnaks =>
    rw [htable, lookup_insert_eq] at hb
    rw [hnaks, List.count_append, Nat.add_sub_cancel_left, filterMap_lqrOf]
    split at hb
    · rename_i heq
      cases hb
      subst heq
      have hrep := (h.present g b₀ hb₀).report hnew
      split
      · rename_i hid
        rw [if_pos hid] at hrep
        simpa using hrep
      · rename_i hid
        rw [if_neg hid] at hrep
        simpa using hrep
    · rename_i hne
      have hne' : ¬ g' = g := fun heq => hne heq.symm
      have hzero : [g'].count g = 0 := by simp [hne']
      rw [hzero]
      split
      · exact h.present g b hb
      · simpa [hne'] using h.present g b hb
  | remove _ hdone htable hw hnaks =>
    rw [htable] at hb
    rw [hnaks, Nat.sub_self]
    split at hb
    · cases hb
    · exact h.present g b hb

/-- **Step lemma of `HandleDataPacket`.** A packet that finds a block is noted, and counted if it is
stored. -/
theorem Recorded.data (h : s.Recorded cfg) {p : Packet} (ht : p.type = .data)
    (hrx : s'.rx = s.session.rx.handleDataPacket rs cfg p) :
    Recorded cfg ⟨s', s.observe cfg (.recv p) s' out⟩ := by
  refine recorded_of fun g b hb => ?_
  simp only [observe, hb, ht, true_and]
  rw [hrx] at hb
  -- a packet that is dropped leaves the blocks as they are
  have hdropped : s.session.rx.stores cfg p = false → s.session.rx.rxBlocks.lookup g = some b →
      Life.Of cfg b (if p.groupID = g then (s.life g).arrive (s.session.rx.stores cfg p) p.idx.toNat
        else s.life g) := by
    intro hstores hb
    rw [hstores]
    split
    · exact (h.present g b hb).arrive_late _
    · exact h.present g b hb
  cases hopen : s.session.rx.recvClosed with
  | true =>
    simp only [Receiver.handleDataPacket, hopen, ↓reduceIte] at hb
    exact hdropped (by simp [Receiver.stores, hopen]) hb
  | false =>
    cases hold : after s.session.rx.nextWriteGrp p.groupID with
    | true =>
      simp only [Receiver.handleDataPacket, hopen, Receiver.noteGroup_nextWriteGrp, hold,
        ↓reduceIte, Bool.false_eq_true, Receiver.noteGroup_rxBlocks] at hb
      exact hdropped (by simp [Receiver.stores, hold]) hb
    | false =>
      have hstores : s.session.rx.stores cfg p =
          ((s.session.rx.blockFor cfg p.groupID).slot p.idx.toNat).isNone := by
        simp [Receiver.stores, hopen, hold]
      rw [Receiver.handleDataPacket_accept hopen hold, lookup_insert_eq] at hb
      split at hb
      · rename_i heq
        cases hb
        rw [if_pos heq.symm, hstores, heq]
        exact (h.blockFor p.groupID).receive p
      · rename_i hne
        rw [if_neg (fun heq => hne heq.symm)]
        exact h.present g b hb

theorem Recorded.start (h : s.Recorded cfg) (hrx : s'.rx = Receiver.startInit cfg s.session.rx) :
    Recorded cfg ⟨s', s.observe cfg .start s' out⟩ := by
  refine recorded_of fun g b hb => ?_
  simp only [observe, hb]
  rw [hrx, Receiver.startInit] at hb
  split at hb
  · rename_i hempty
    simp only [lookup_insert_eq] at hb
    split at hb
    · rename_i heq
      cases hb
      rw [heq, h.absent 0 (lookup_of_isEmpty hempty 0), startRxBlock_eq]
      exact Life.of_new cfg 0
    · exact h.present g b hb
  · exact h.present g b hb

theorem Recorded.step (h : s.Recorded cfg) {e : SessionEvent} {t : Reporting}
    (hs : s.step rs cfg e = some (t, out)) :
    t.Recorded cfg := by
  obtain ⟨⟨s', out'⟩, hstep, heq⟩ := Option.map_eq_some_iff.mp hs
  cases heq
  cases Session.stepped_of_step hstep with
  | start hl hst => exact h.start rfl
  | rx e eff heff => exact h.touch e (Receiver.touch_of_step heff)
  | recv p hd =>
    by_cases ht : p.type = .data
    · have hrx : (s.session.handle rs cfg p).rx = s.session.rx.handleDataPacket rs cfg p := by
        simp [Session.handle, ht]
      exact h.data ht hrx
    · refine recorded_of fun g b hb => ?_
      rw [Session.handle_rx_of_ne ht] at hb
      simp only [observe, Session.handle_rx_of_ne ht, hb, ht, false_and, if_false]
      exact h.present g b hb
  | finishHandler hd =>
    refine recorded_of fun g b hb => ?_
    rw [Session.finishHandler_rx] at hb
    simp only [observe, Session.finishHandler_rx, hb]
    exact h.present g b hb
  | launch hl => exact recorded_of fun g b hb => by simpa only [observe, hb] using h.present g b hb
  | tx e eff hl hclose heff =>
    exact recorded_of fun g b hb => by simpa only [observe, hb] using h.present g b hb
  | txClose e eff hl hclose heff =>
    exact recorded_of fun g b hb => by simpa only [observe, hb] using h.present g b hb
  | cancel => exact recorded_of fun g b hb => by simpa only [observe, hb] using h.present g b hb

end Reporting

theorem recorded_of_reach {rs : ReedSolomon} {cfg : Config} {ok : Reporting → SessionEvent → Prop}
    {s : Reporting} (hr : Reach (reporting rs cfg) ok s) : s.Recorded cfg := by
  induction hr with
  | init => exact Reporting.recorded_new cfg
  | step _ _ hs ih =>
    obtain ⟨⟨_, out⟩, hstep, rfl⟩ := Option.map_eq_some_iff.mp hs
    exact ih.step hstep

/-! ## The writer removes reported blocks only -/

namespace Receiver

variable {rs : ReedSolomon} {cfg : Config} {r r' : Receiver} {out : List Bytes}

/-- A writer about to delete its block has reported it. -/
def Settled (r : Receiver) : Prop := r.writer = .finish → ∀ b, r.current = some b →
    b.lqrReported = true

theorem Settled.touch (h : r.Settled) (ht : Touch cfg r r' out) : r'.Settled := by
  intro hfin b hb
  cases ht with
  | quiet _ _ htable hnext hw hnaks hout =>
    rw [current, htable, hnext] at hb
    exact (hw hfin).elim (fun hw => h hw b hb) (fun hrep => hrep b hb)
  | timer g b₀ t _ hb₀ htable hnext hw hnaks =>
    rw [current, htable, hnext, lookup_insert_eq] at hb
    split at hb
    · rename_i heq
      cases hb
      exact h (hw hfin) b₀ (by rw [current, heq]; exact hb₀)
    · exact h (hw hfin) b hb
  | report g b₀ _ hb₀ hnew htable hnext hw hnaks =>
    rw [current, htable, hnext, lookup_insert_eq] at hb
    split at hb
    · cases hb
      rfl
    · rename_i hne
      exact (hw hfin).elim (fun hw => h hw b hb) (fun heq => absurd heq.symm hne)
  | remove _ hdone htable hw hnaks => exact absurd hfin hw

/-- A packet does not replace the block of a writer that is at it. -/
theorem Settled.intake (h : r.Settled) (hat : r.writer.busy = true → AtBlock r) {p : Packet}
    (hi : Intake rs cfg r p r') : r'.Settled := by
  obtain ⟨top, has, hnote⟩ := r.noteGroup_eq p.groupID
  cases hi with
  | closed hclosed => exact h
  | old hold =>
    rw [hnote]
    exact h
  | take hnew =>
    rw [hnote]
    intro hfin b hb
    replace hfin : r.writer = .finish := hfin
    simp only [current, lookup_insert_eq] at hb
    split at hb
    · rename_i heq
      cases hb
      obtain ⟨b₀, hb₀, -⟩ := hat (by rw [hfin]; rfl)
      rw [(RxBlock.receive_frame rs _ p).2.2, blockFor, ← heq,
        show r.rxBlocks.lookup r.nextWriteGrp = some b₀ from hb₀]
      exact h hfin b₀ hb₀
    · exact h hfin b hb

theorem Settled.start (h : r.Settled) (hat : r.writer.busy = true → AtBlock r) :
    (startInit cfg r).Settled := by
  unfold startInit
  split
  · rename_i hempty
    intro hfin
    obtain ⟨b₀, hb₀, -⟩ := hat (by rw [show r.writer = .finish from hfin]; rfl)
    rw [current, lookup_of_isEmpty hempty] at hb₀
    cases hb₀
  · exact h

end Receiver

/-- What a step can do to the block of group `g`: make it, change it without taking back its report,
or delete it for the writer. -/
inductive Receiver.EntryChange (r : Receiver) (g : UInt16) : Option RxBlock → Option RxBlock → Prop
  | same (entry : Option RxBlock) : EntryChange r g entry entry
  | new (b : RxBlock) : EntryChange r g none (some b)
  | change (b b' : RxBlock) (hrep : b.lqrReported = true → b'.lqrReported = true) :
      EntryChange r g (some b) (some b')
  | remove (entry : Option RxBlock) (hg : g = r.nextWriteGrp)
      (hdone : r.writer = .finish ∨ ∃ b, r.current = some b ∧ b.lqrReported = true) :
        EntryChange r g entry none

namespace Receiver

variable {rs : ReedSolomon} {cfg : Config} {r r' : Receiver} {g : UInt16}

theorem entryChange_insert {t : Table UInt16 RxBlock} {g₀ : UInt16} {b : RxBlock}
    (h : EntryChange r g₀ (t.lookup g₀) (some b)) :
    EntryChange r g (t.lookup g) ((t.insert g₀ b).lookup g) := by
  rw [lookup_insert_eq]
  split
  · rename_i heq
    rw [heq]
    exact h
  · exact .same _

theorem entryChange_startInit :
    EntryChange r g (r.rxBlocks.lookup g) ((startInit cfg r).rxBlocks.lookup g) := by
  unfold startInit
  split
  · rename_i hempty
    refine entryChange_insert ?_
    rw [lookup_of_isEmpty hempty]
    exact .new _
  · exact .same _

theorem Intake.entryChange {p : Packet} (hi : Intake rs cfg r p r') :
    EntryChange r g (r.rxBlocks.lookup g) (r'.rxBlocks.lookup g) := by
  obtain ⟨top, has, hnote⟩ := r.noteGroup_eq p.groupID
  cases hi with
  | closed hclosed => exact .same _
  | old hold =>
    rw [hnote]
    exact .same _
  | take hnew =>
    rw [hnote]
    refine entryChange_insert ?_
    rw [blockFor]
    cases hb : r.rxBlocks.lookup p.groupID with
    | none => exact .new _
    | some b =>
      refine .change b _ fun hrep => ?_
      rw [(RxBlock.receive_frame rs _ p).2.2]
      exact hrep

theorem Touch.entryChange {out : List Bytes} (ht : Touch cfg r r' out) :
    EntryChange r g (r.rxBlocks.lookup g) (r'.rxBlocks.lookup g) := by
  cases ht with
  | quiet _ _ htable =>
    rw [htable]
    exact .same _
  | timer g₀ b₀ t _ hb₀ htable =>
    rw [htable]
    refine entryChange_insert ?_
    rw [hb₀]
    exact .change b₀ _ id
  | report g₀ b₀ _ hb₀ hnew htable =>
    rw [htable]
    refine entryChange_insert ?_
    rw [hb₀]
    exact .change b₀ _ fun _ => rfl
  | remove _ hdone htable =>
    rw [htable]
    split
    · rename_i hg
      exact .remove _ hg hdone
    · exact .same _

end Receiver

theorem Session.step_entry {rs : ReedSolomon} {cfg : Config} {s s' : Session} {e : SessionEvent}
    {out : List Bytes} (hs : s.step rs cfg e = some (s', out)) (g : UInt16) :
    Receiver.EntryChange s.rx g (s.rx.rxBlocks.lookup g) (s'.rx.rxBlocks.lookup g) := by
  have hchange := (Session.step_rxChange hs).1
  generalize s'.rx = r' at hchange ⊢
  cases hchange with
  | same => exact .same _
  | launch hl => exact .same _
  | start hl => exact Receiver.entryChange_startInit
  | step ev eff heff => exact (Receiver.touch_of_step heff).entryChange
  | data p ht => exact (Receiver.handleDataPacket_intake rs cfg s.rx p).entryChange

section Report

variable {rs : ReedSolomon} {cfg : Config} {s s' : Session} {e : SessionEvent} {out : List Bytes}
  {g : UInt16} {b : RxBlock}

/-- An LQR goes out for a block that is there and has not been reported. -/
theorem unreported_of_lqr {done closeRecv : Bool} {r : Receiver} {ev : RxEvent}
    {eff : Effect Receiver} (h : r.step cfg done closeRecv ev = some eff) {a : Bytes}
    (ha : a ∈ eff.out) {losses : UInt8} (hlqr : lqrOf a = some (g, losses)) :
    ∃ b, r.rxBlocks.lookup g = some b ∧ b.lqrReported = false ∧ losses = UInt8.ofNat b.losses := by
  have ht := Receiver.touch_of_step h
  generalize eff.state = r' at ht
  generalize eff.out = out at ht ha
  cases ht with
  | quiet _ _ htable hnext hw hnaks hout =>
    obtain ⟨q, hq⟩ := hout a ha
    rw [lqrOf_nak hq] at hlqr
    cases hlqr
  | timer => cases ha
  | report g' b _ hb hnew htable =>
    have hmem : (g, losses) ∈
        (sendPacketDirect (Receiver.lqrPacket cfg g' b.losses)).filterMap lqrOf :=
      List.mem_filterMap.mpr ⟨a, ha, hlqr⟩
    rw [filterMap_lqrOf] at hmem
    split at hmem
    · cases hmem
    · cases List.mem_singleton.mp hmem
      exact ⟨b, hb, hnew, rfl⟩
  | remove => cases ha

end Report

end TcpPep
