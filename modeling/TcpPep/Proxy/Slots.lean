import TcpPep.Protocol.Codec
import TcpPep.Proxy.Repair
import TcpPep.Proxy.Window

/-!
The representation of a receive block, under arbitrary packets.

Slots are filled by arrivals, which are counted, and by the decoder, which are
not; the slice grows for an index beyond it.

* `RxBlock.Rep`: the invariant of one block;
* `RxBlock.Rep.slot_receive`: a slot that is filled keeps its content;
* `RxBlock.receiveChecked`, `RxBlock.naksChecked`, `RxBlock.extractChecked`: the code with its slice
  accesses, which have no result where Go panics;
* `rxBlock_representation`: the invariant of every block of every run, the accesses in range,
  and decoded blocks that do not change until the writer has passed them.
-/

namespace TcpPep

open Protocol Fec FiniteMap Events

/-- What is assumed of `FEC.Reconstruct`: on success no data shard is nil, and a shard that was
there is as it was. -/
structure Restores (rs : ReedSolomon) (k : Nat) : Prop where
  data : ∀ m shards out, reconstruct rs k m shards = some out →
    ∀ i < k, ∃ p, out[i]? = some (some p)
  present : ∀ m shards out, reconstruct rs k m shards = some out →
    ∀ (i : Nat) (p : Bytes), shards[i]? = some (some p) → out[i]? = some (some p)

namespace RxBlock

/-- The representation invariant. -/
structure Rep (k : Nat) (b : RxBlock) : Prop where
  k_eq : b.k = k
  length_packets : b.packets.length = b.k + b.m
  length_seqNums : b.seqNums.length = b.k
  receivedCnt : b.receivedCnt ≤ b.packets.countP Option.isSome
  decoded : b.decoded = true → ∀ i < b.k, (b.slot i).isSome = true

variable {rs : ReedSolomon} {k : Nat} {b : RxBlock}

theorem rep_new (cfg : Config) (g : UInt16) : Rep cfg.fecK (newRxBlock cfg g) :=
  ⟨rfl, by simp [newRxBlock], by simp [newRxBlock], Nat.zero_le _, by simp [newRxBlock]⟩

theorem Rep.le_length (h : Rep k b) : b.k ≤ b.packets.length := by
  rw [h.length_packets]
  exact Nat.le_add_right _ _

/-! ## Filling slots -/

theorem grow_m (h : Rep k b) (idx : Nat) : (b.grow idx).packets.length = b.k + (b.grow idx).m := by
  unfold grow
  split
  · have hle := h.le_length
    simp only [List.length_append, List.length_replicate]
    omega
  · exact h.length_packets

theorem store_m (idx : Nat) (payload : Bytes) : (b.store idx payload).m = (b.grow idx).m := by
  cases hs : b.slot idx with
  | some q => rw [store_of_some hs]
  | none => rw [store_of_none hs]

theorem store_seqNums (idx : Nat) (payload : Bytes) :
    (b.store idx payload).seqNums = b.seqNums := by
  have hgrow : (b.grow idx).seqNums = b.seqNums := by unfold grow; split <;> rfl
  cases hs : b.slot idx with
  | some q => rw [store_of_some hs, hgrow]
  | none => rw [store_of_none hs]; exact hgrow

theorem slot_store_of_some {i : Nat} {q : Bytes} (hi : b.slot i = some q) (idx : Nat)
    (payload : Bytes) :
    (b.store idx payload).slot i = some q := by
  rw [slot_store]
  split
  · rename_i hc
    rw [hc.1, hc.2] at hi
    cases hi
  · exact hi

theorem Rep.store (h : Rep k b) (idx : Nat) (payload : Bytes) : Rep k (b.store idx payload) where
  k_eq := by rw [store_k, h.k_eq]
  length_packets := by rw [length_store, ← length_grow, grow_m h, store_k, store_m]
  length_seqNums := by rw [store_seqNums, store_k, h.length_seqNums]
  receivedCnt := by
    have hcnt := h.receivedCnt
    rw [← card_present] at hcnt ⊢
    rw [present_store, store_receivedCnt]
    cases hs : b.slot idx with
    | none =>
      have hnot : idx ∉ present b.packets := by rw [mem_present, hs]; simp
      rw [Finset.card_insert_of_notMem hnot, if_pos rfl]
      omega
    | some q =>
      have hin : idx ∈ present b.packets := by rw [mem_present, hs]; rfl
      rw [Finset.insert_eq_of_mem hin, if_neg (by simp)]
      exact hcnt
  decoded := by
    intro hd i hi
    rw [store_decoded] at hd
    rw [store_k] at hi
    obtain ⟨q, hq⟩ := Option.isSome_iff_exists.mp (h.decoded hd i hi)
    rw [slot_store_of_some hq]
    rfl

/-! ## Decoding -/

/-- The ways `tryDecodeBlock` ends: all data is there, nothing can be done, or the missing data
shards are filled in. -/
inductive Decoded (rs : ReedSolomon) (b : RxBlock) : RxBlock → Prop
  | whole (hall : ∀ i < b.k, (b.slot i).isSome = true) : Decoded rs b { b with decoded := true }
  | failed : Decoded rs b b
  | restored (len : Nat) (shards : List (Option Bytes))
      (hrec : reconstruct rs b.k (b.packets.length - b.k) (b.decodeShards len) = some shards) :
      Decoded rs b
        { b with
          packets := (List.range b.packets.length).map fun i =>
            if i < b.k && (b.slot i).isNone then shards.getD i none else b.slot i
          decoded := true }

theorem decoded_tryDecodeBlock (rs : ReedSolomon) (b : RxBlock) :
    Decoded rs b (b.tryDecodeBlock rs) := by
  unfold tryDecodeBlock
  split
  · rename_i hok
    exact .whole (b.dataOk_eq_iff.mp hok)
  · simp only
    split
    · exact .failed
    · split
      · exact .failed
      · rename_i shards hrec
        exact .restored _ shards hrec

theorem getD_restored (shards : List (Option Bytes)) (hle : b.k ≤ b.packets.length) (i : Nat) :
    ((List.range b.packets.length).map fun i =>
      if i < b.k && (b.slot i).isNone then shards.getD i none else b.slot i).getD i none =
      if i < b.k ∧ b.slot i = none then shards.getD i none else b.slot i := by
  by_cases hi : i < b.packets.length
  · simp [List.getD_eq_getElem?_getD, hi]
  · have hnone : b.slot i = none := by simp [slot, List.getD_eq_getElem?_getD, hi]
    rw [if_neg (by omega), hnone]
    simp [List.getD_eq_getElem?_getD, hi]

theorem Decoded.slot {b' : RxBlock} (hd : Decoded rs b b') (hle : b.k ≤ b.packets.length) {i : Nat}
    {q : Bytes} (hi : b.slot i = some q) : b'.slot i = some q := by
  cases hd with
  | whole hall => exact hi
  | failed => exact hi
  | restored len shards hrec =>
    show List.getD _ i none = some q
    rw [getD_restored shards hle, hi, if_neg (by simp)]

theorem Rep.tryDecodeBlock (hrs : Restores rs k) (h : Rep k b) : Rep k (b.tryDecodeBlock rs) := by
  have hd := decoded_tryDecodeBlock rs b
  have hslot : ∀ {i q}, b.slot i = some q → (b.tryDecodeBlock rs).slot i = some q :=
    hd.slot h.le_length
  have hpresent : present b.packets ⊆ present (b.tryDecodeBlock rs).packets := by
    intro i hi
    obtain ⟨q, hq⟩ := Option.isSome_iff_exists.mp (mem_present.mp hi)
    rw [mem_present, hslot hq]
    rfl
  have hcnt : b.receivedCnt ≤ (b.tryDecodeBlock rs).packets.countP Option.isSome := by
    refine Nat.le_trans h.receivedCnt ?_
    rw [← card_present, ← card_present]
    exact Finset.card_le_card hpresent
  generalize b.tryDecodeBlock rs = b' at hd hcnt
  cases hd with
  | whole hall => exact ⟨h.k_eq, h.length_packets, h.length_seqNums, hcnt, fun _ => hall⟩
  | failed => exact h
  | restored len shards hrec =>
    refine ⟨h.k_eq, ?_, h.length_seqNums, hcnt, fun _ i hi => ?_⟩
    · simpa using h.length_packets
    · show (List.getD _ i none).isSome = true
      rw [getD_restored shards h.le_length]
      rw [h.k_eq] at hrec
      obtain ⟨p, hp⟩ := hrs.data _ _ _ hrec i (h.k_eq ▸ hi)
      split
      · rw [List.getD_eq_getElem?_getD, hp]
        rfl
      · rename_i hc
        exact Option.isSome_iff_ne_none.mpr fun hnone => hc ⟨hi, hnone⟩

theorem Rep.receive (hrs : Restores rs k) (h : Rep k b) (p : Packet) : Rep k (b.receive rs p) := by
  have hs := h.store p.idx.toNat p.payload
  unfold RxBlock.receive
  simp only
  split
  · exact hs.tryDecodeBlock hrs
  · exact hs

theorem Rep.slot_receive (h : Rep k b) (p : Packet) {i : Nat} {q : Bytes} (hi : b.slot i = some q) :
    (b.receive rs p).slot i = some q := by
  have hs := slot_store_of_some hi p.idx.toNat p.payload
  unfold RxBlock.receive
  simp only
  split
  · exact (decoded_tryDecodeBlock rs _).slot (h.store _ _).le_length hs
  · exact hs

theorem Rep.of_core {b' : RxBlock} (h : Rep k b) (hcore : b'.core = b.core) : Rep k b' := by
  obtain ⟨hk, hp, hc, hd, hq⟩ := core_fields hcore
  have hm : b'.core.m = b.core.m := by rw [hcore]
  replace hm : b'.m = b.m := hm
  refine ⟨hk.trans h.k_eq, ?_, ?_, ?_, ?_⟩
  · rw [hp, hk, hm, h.length_packets]
  · rw [hq, hk, h.length_seqNums]
  · rw [hp, hc]
    exact h.receivedCnt
  · rw [hd, hk]
    intro hdec i hi
    rw [slot, hp]
    exact h.decoded hdec i hi

end RxBlock

/-! ## The table -/

/-- The blocks that are open. -/
def Receiver.Rep (k : Nat) (r : Receiver) : Prop := ∀ g b, r.rxBlocks.lookup g = some b → b.Rep k

/-- `b'` is `b` some time later: if `b` is decoded, so is `b'`, with the same data slots. -/
structure RxBlock.Later (b b' : RxBlock) : Prop where
  k_eq : b'.k = b.k
  decoded : b.decoded = true → b'.decoded = true
  frozen : b.decoded = true → ∀ i < b.k, b'.slot i = b.slot i

namespace RxBlock.Later

variable {rs : ReedSolomon} {k : Nat} {b b' b'' : RxBlock}

theorem rfl : b.Later b := ⟨Eq.refl _, fun h => h, fun _ _ _ => Eq.refl _⟩

theorem trans (h : b.Later b') (h' : b'.Later b'') : b.Later b'' := by
  refine ⟨h'.k_eq.trans h.k_eq, fun hd => h'.decoded (h.decoded hd), fun hd i hi => ?_⟩
  rw [h'.frozen (h.decoded hd) i (by rw [h.k_eq]; exact hi), h.frozen hd i hi]

theorem of_core (hcore : b'.core = b.core) : b.Later b' := by
  obtain ⟨hk, hp, -, hd, -⟩ := RxBlock.core_fields hcore
  refine ⟨hk, by rw [hd]; exact fun h => h, fun _ i _ => ?_⟩
  rw [slot, slot, hp]

/-- A packet, whatever it carries, does not touch the data of a decoded block. -/
theorem receive (hrs : Restores rs k) (h : b.Rep k) (p : Packet) : b.Later (b.receive rs p) := by
  refine ⟨(h.receive hrs p).k_eq.trans h.k_eq.symm, fun hd => receive_decoded hd p,
    fun hd i hi => ?_⟩
  obtain ⟨q, hq⟩ := Option.isSome_iff_exists.mp (h.decoded hd i hi)
  rw [h.slot_receive p hq, hq]

end RxBlock.Later

section Table

variable {rs : ReedSolomon} {cfg : Config} {r r' : Receiver} {s s' : Session} {e : SessionEvent}
  {out : List Bytes} {g : UInt16} {b : RxBlock}

theorem Receiver.Rep.blockFor (h : r.Rep cfg.fecK) (g : UInt16) :
    (r.blockFor cfg g).Rep cfg.fecK := by
  unfold Receiver.blockFor
  cases hb : r.rxBlocks.lookup g with
  | none => exact RxBlock.rep_new cfg g
  | some b => exact h g b hb

theorem Receiver.Rep.of_sameCores {k : Nat} (h : r.Rep k)
    (hsame : SameCores r.rxBlocks r'.rxBlocks) : r'.Rep k := by
  intro g b' hb'
  obtain ⟨b, hb, hcore⟩ := hsame.lookup hb'
  exact (h g b hb).of_core hcore

theorem Receiver.Rep.move {k : Nat} {done closeRecv : Bool} (h : r.Rep k)
    (hm : Receiver.Move done closeRecv r r') :
    r'.Rep k := by
  cases hm with
  | timers t cbs naks hsame => exact h.of_sameCores hsame
  | unreported t hw hsame => exact h.of_sameCores hsame
  | reported t naks hw hsame => exact h.of_sameCores hsame
  | advance t hw hsame =>
    intro g b' hb'
    simp only [Receiver.advance, lookup_erase_eq, Option.ite_none_left_eq_some] at hb'
    obtain ⟨b, hb, hcore⟩ := hsame.lookup hb'.2
    exact (h g b hb).of_core hcore
  | _ => exact h

theorem Receiver.Rep.intake (hrs : Restores rs cfg.fecK) {p : Packet} (h : r.Rep cfg.fecK)
    (hi : Receiver.Intake rs cfg r p r') : r'.Rep cfg.fecK := by
  obtain ⟨top, has, hnote⟩ := r.noteGroup_eq p.groupID
  cases hi with
  | closed hclosed => exact h
  | old hold =>
    rw [hnote]
    exact h
  | take hnew =>
    rw [hnote]
    intro g b hb
    simp only [lookup_insert_eq] at hb
    split at hb
    · cases hb
      exact (h.blockFor p.groupID).receive hrs p
    · exact h g b hb

theorem Receiver.Rep.start (h : r.Rep cfg.fecK) : (Receiver.startInit cfg r).Rep cfg.fecK := by
  unfold Receiver.startInit
  split
  · intro g b hb
    simp only [lookup_insert_eq] at hb
    split at hb
    · cases hb
      rw [startRxBlock_eq]
      exact RxBlock.rep_new cfg 0
    · exact h g b hb
  · exact h

theorem Receiver.Rep.step (hrs : Restores rs cfg.fecK) (h : s.rx.Rep cfg.fecK)
    (hs : s.step rs cfg e = some (s', out)) : s'.rx.Rep cfg.fecK := by
  have hchange := (Session.step_rxChange hs).1
  generalize s'.rx = r' at hchange ⊢
  cases hchange with
  | same => exact h
  | launch hl => exact h
  | start hl => exact h.start
  | step ev eff heff => exact h.move (Receiver.step_move heff)
  | data p ht => exact h.intake hrs (Receiver.handleDataPacket_intake rs cfg s.rx p)

/-! ## The life of a block -/

/-- A block stays until the writer deletes it. -/
theorem Receiver.Move.later {done closeRecv : Bool} (hb : r.rxBlocks.lookup g = some b)
    (hm : Receiver.Move done closeRecv r r') :
    (∃ b', r'.rxBlocks.lookup g = some b' ∧ b.Later b') ∨ r.nextWriteGrp = g ∧
    r'.written = r.written + 1 := by
  have hsame : ∀ t : Table UInt16 RxBlock, SameCores r.rxBlocks t → ∃ b', t.lookup g = some b' ∧
      b.Later b' := by
    intro t hsame
    have hg := hsame g
    rw [hb, Option.map_some, Option.map_eq_some_iff] at hg
    obtain ⟨b', hb', hcore⟩ := hg
    exact ⟨b', hb', .of_core hcore⟩
  cases hm with
  | timers t cbs naks h => exact Or.inl (hsame t h)
  | unreported t hw h => exact Or.inl (hsame t h)
  | reported t naks hw h => exact Or.inl (hsame t h)
  | advance t hw h =>
    by_cases hg : g = r.nextWriteGrp
    · exact Or.inr ⟨hg.symm, rfl⟩
    · left
      simp only [Receiver.advance, lookup_erase_eq, if_neg hg]
      exact hsame t h
  | _ => exact Or.inl ⟨b, hb, .rfl⟩

theorem Receiver.Intake.later (hrs : Restores rs cfg.fecK) {p : Packet} (h : r.Rep cfg.fecK)
    (hb : r.rxBlocks.lookup g = some b) (hi : Receiver.Intake rs cfg r p r') :
    ∃ b', r'.rxBlocks.lookup g = some b' ∧ b.Later b' := by
  obtain ⟨top, has, hnote⟩ := r.noteGroup_eq p.groupID
  cases hi with
  | closed hclosed => exact ⟨b, hb, .rfl⟩
  | old hold =>
    rw [hnote]
    exact ⟨b, hb, .rfl⟩
  | take hnew =>
    rw [hnote]
    simp only [lookup_insert_eq]
    split
    · rename_i hg
      subst hg
      refine ⟨_, rfl, ?_⟩
      rw [Receiver.blockFor, hb, Option.getD_some]
      exact .receive hrs (h _ b hb) p
    · exact ⟨b, hb, .rfl⟩

theorem Session.step_later (hrs : Restores rs cfg.fecK) (h : s.rx.Rep cfg.fecK)
    (hb : s.rx.rxBlocks.lookup g = some b) (hs : s.step rs cfg e = some (s', out)) :
    (∃ b', s'.rx.rxBlocks.lookup g = some b' ∧ b.Later b') ∨
      s.rx.nextWriteGrp = g ∧ s'.rx.written = s.rx.written + 1 := by
  have hchange := (Session.step_rxChange hs).1
  generalize s'.rx = r' at hchange ⊢
  cases hchange with
  | same => exact Or.inl ⟨b, hb, .rfl⟩
  | launch hl => exact Or.inl ⟨b, hb, .rfl⟩
  | start hl =>
    left
    unfold Receiver.startInit
    split
    · rename_i hempty
      rw [lookup_of_isEmpty hempty g] at hb
      cases hb
    · exact ⟨b, hb, .rfl⟩
  | step ev eff heff => exact (Receiver.step_move heff).later hb
  | data p ht => exact Or.inl ((Receiver.handleDataPacket_intake rs cfg s.rx p).later hrs h hb)

/-- **Run lemma of a block.** It is there, with its data unchanged once it was decoded, until the
writer has passed its group. -/
theorem later_of_reach (hrs : Restores rs cfg.fecK) (h : s.rx.Rep cfg.fecK)
    (hcount : s.rx.nextWriteGrp = UInt16.ofNat s.rx.written) (hb : s.rx.rxBlocks.lookup g = some b)
    {ok : Session → SessionEvent → Prop} (hr : Reach { session rs cfg with init := s } ok s') :
    (∃ b', s'.rx.rxBlocks.lookup g = some b' ∧ b.Later b') ∨
      ∃ n, s.rx.written ≤ n ∧ n < s'.rx.written ∧ g = UInt16.ofNat n := by
  suffices hall : (s'.rx.Rep cfg.fecK ∧ s'.rx.nextWriteGrp = UInt16.ofNat s'.rx.written ∧
      s.rx.written ≤ s'.rx.written) ∧ ((∃ b', s'.rx.rxBlocks.lookup g = some b' ∧ b.Later b') ∨
        ∃ n, s.rx.written ≤ n ∧ n < s'.rx.written ∧ g = UInt16.ofNat n) from hall.2
  induction hr with
  | init => exact ⟨⟨h, hcount, Nat.le_refl _⟩, Or.inl ⟨b, hb, .rfl⟩⟩
  | @step s₁ s₂ e _ _ hs ih =>
    obtain ⟨⟨h₁, hcount₁, hle⟩, hlife⟩ := ih
    obtain ⟨⟨s₂, out⟩, hstep, rfl⟩ := Option.map_eq_some_iff.mp hs
    have hw := Session.written_le hstep
    dsimp only
    refine ⟨⟨h₁.step hrs hstep, Session.step_counted hcount₁ hstep, by omega⟩, ?_⟩
    rcases hlife with ⟨b₁, hb₁, hlater⟩ | ⟨n, hn, hlt, hg⟩
    · rcases Session.step_later hrs h₁ hb₁ hstep with ⟨b₂, hb₂, hlater₂⟩ | ⟨hg, hnext⟩
      · exact Or.inl ⟨b₂, hb₂, hlater.trans hlater₂⟩
      · exact Or.inr ⟨s₁.rx.written, hle, by omega, by rw [← hg, hcount₁]⟩
    · exact Or.inr ⟨n, hn, by omega, hg⟩

end Table

/-! ## Slice accesses

The same code with every access to a slice written out; an access has no result where Go
would panic. -/

namespace RxBlock

/-- The part of `HandleDataPacket` that fills a slot. -/
def storeChecked (b : RxBlock) (idx : Nat) (payload : Bytes) : Option RxBlock :=
  let b := b.grow idx
  b.packets[idx]?.map fun slot =>
    if slot.isSome then b
    else { b with packets := b.packets.set idx (some payload), receivedCnt := b.receivedCnt + 1 }

/-- The loop that copies restored data shards back. -/
def copyBack (shards packets : List (Option Bytes)) (k : Nat) : Option (List (Option Bytes)) :=
  (List.range k).foldlM (fun packets i =>
    packets[i]?.bind fun slot => if slot.isSome then some packets else shards[i]?.map fun p =>
      packets.set i p) packets

/-- `Reconstruct` works on the slices it is given, and those of full length are the block's own. -/
def shared (b : RxBlock) (len : Nat) (shards : List (Option Bytes)) : List (Option Bytes) :=
  (List.range b.packets.length).map fun i =>
    match b.slot i with
    | some p => if p.length < len then some p else shards.getD i none
    | none => none

def tryDecodeBlockChecked (rs : ReedSolomon) (b : RxBlock) : Option RxBlock :=
  ((List.range b.k).mapM fun i => b.packets[i]?).bind fun data =>
    if data.countP Option.isSome = b.k then some { b with decoded := true }
    else
      let len := maxLen (b.packets.filterMap id)
      if len = 0 then some b
      else
        let m := b.packets.length - b.k
        ((List.range (b.k + m)).mapM fun i => b.packets[i]?.map fun p =>
            p.map fun p => if p.length < len then padded len p else p).bind fun shards =>
          match Fec.reconstruct rs b.k m shards with
          | none => some b
          | some shards =>
            (copyBack shards (b.shared len shards) b.k).map fun packets =>
              { b with packets, decoded := true }

def receiveChecked (rs : ReedSolomon) (b : RxBlock) (p : Packet) : Option RxBlock :=
  (b.storeChecked p.idx.toNat p.payload).bind fun b =>
    if b.receivedCnt ≥ b.k && !b.decoded then b.tryDecodeBlockChecked rs else some b

/-- The sequence numbers a NAK check asks for. -/
def naksChecked (b : RxBlock) : Option (List UInt8) :=
  ((List.range b.k).mapM fun i => b.packets[i]?.bind fun slot =>
    if slot.isSome then some none else b.seqNums[i]?.map some).map (List.filterMap id)

/-- What the writer takes out of slot `i`. -/
def extractChecked (b : RxBlock) (i : Nat) : Option Bytes :=
  b.packets[i]?.bind fun slot =>
    let payload := slot.getD []
    if payload.length < 2 then some []
    else
      (uint16At payload 0).bind fun n =>
        if n.toNat > 0 ∧ 2 + n.toNat ≤ payload.length then slice payload 2 (2 + n.toNat)
          else some []

variable {rs : ReedSolomon} {k : Nat} {b : RxBlock}

theorem mapM_eq_some_map {α β : Type} {l : List α} {f : α → Option β} {g : α → β}
    (h : ∀ a ∈ l, f a = some (g a)) :
    l.mapM f = some (l.map g) := by
  induction l with
  | nil => rfl
  | cons a l ih =>
    rw [List.mapM_cons, h a List.mem_cons_self, ih fun a ha => h a (List.mem_cons_of_mem _ ha)]
    rfl

theorem getElem?_packets {i : Nat} (hi : i < b.packets.length) :
    b.packets[i]? = some (b.slot i) := by
  rw [slot, List.getD_eq_getElem?_getD, List.getElem?_eq_getElem hi]
  rfl

theorem ext_getD {l l' : List (Option Bytes)} (hlen : l.length = l'.length)
    (h : ∀ i, l.getD i none = l'.getD i none) : l = l' := by
  refine List.ext_getElem hlen fun i hi hi' => ?_
  simpa [List.getD_eq_getElem?_getD, hi, hi'] using h i

theorem map_slot_range (b : RxBlock) : (List.range b.packets.length).map b.slot = b.packets := by
  refine List.ext_getElem? fun i => ?_
  by_cases hi : i < b.packets.length
  · rw [getElem?_packets hi, List.getElem?_map, List.getElem?_range hi]
    rfl
  · simp [hi]

theorem storeChecked_eq (b : RxBlock) (idx : Nat) (payload : Bytes) :
    b.storeChecked idx payload = some (b.store idx payload) := by
  have hlt : idx < (b.grow idx).packets.length := by
    rw [length_grow]
    omega
  simp only [storeChecked, getElem?_packets hlt, Option.map_some, slot_grow]
  cases hs : b.slot idx with
  | some q => rw [store_of_some hs]; rfl
  | none => rw [store_of_none hs, grow_receivedCnt]; rfl

/-- The loop up to slot `k` has filled the empty slots below `k`. -/
theorem copyBack_spec {shards packets : List (Option Bytes)} (hk : k ≤ packets.length)
    (hs : ∀ i < k, ∃ p, shards[i]? = some (some p)) :
    ∃ filled, copyBack shards packets k = some filled ∧ filled.length = packets.length ∧
      ∀ i, filled.getD i none =
        if i < k ∧ packets.getD i none = none then shards.getD i none else packets.getD i none := by
  induction k with
  | zero => exact ⟨packets, rfl, rfl, by simp⟩
  | succ k ih =>
    obtain ⟨filled, hloop, hlen, hget⟩ := ih (by omega) fun i hi => hs i (by omega)
    obtain ⟨p, hp⟩ := hs k (by omega)
    have hslot : filled[k]? = some (packets.getD k none) := by
      have hgetk := hget k
      rw [if_neg (by omega), List.getD_eq_getElem?_getD,
        List.getElem?_eq_getElem (by omega)] at hgetk
      rw [List.getElem?_eq_getElem (by omega)]
      exact congrArg some hgetk
    have hlast : copyBack shards packets (k + 1) =
        if (packets.getD k none).isSome then some filled else some (filled.set k (some p)) := by
      unfold copyBack at hloop ⊢
      rw [List.range_succ, List.foldlM_append, hloop]
      simp [hslot, hp]
    cases hnone : packets.getD k none with
    | some q =>
      refine ⟨filled, by rw [hlast, hnone]; rfl, hlen, fun i => ?_⟩
      rw [hget i]
      by_cases hi : i = k
      · subst hi
        rw [if_neg (by omega), if_neg (by rw [hnone]; simp)]
      · simp only [show i < k + 1 ↔ i < k by omega]
    | none =>
      refine ⟨filled.set k (some p), by rw [hlast, hnone]; rfl, by simpa using hlen, fun i => ?_⟩
      by_cases hi : i = k
      · subst hi
        have hlt : i < filled.length := by omega
        rw [if_pos ⟨by omega, hnone⟩]
        simp [List.getD_eq_getElem?_getD, hlt, hp]
      · rw [List.getD_eq_getElem?_getD, List.getElem?_set_ne (by omega),
          ← List.getD_eq_getElem?_getD, hget i]
        simp only [show i < k + 1 ↔ i < k by omega]

/-- What `Reconstruct` was given is as it was, so the block's own slices are, too. -/
theorem shared_eq (hrs : Restores rs k) {m len : Nat} {shards : List (Option Bytes)}
    (hrec : reconstruct rs k m (b.decodeShards len) = some shards) :
    b.shared len shards = b.packets := by
  rw [← map_slot_range b]
  refine List.map_congr_left fun i hi => ?_
  cases hs : b.slot i with
  | none => rfl
  | some p =>
    simp only
    split
    · rfl
    · rename_i hlen
      have hin : (b.decodeShards len)[i]? = some (some p) := by
        rw [decodeShards, List.getElem?_map, slot_eq_some.mp hs]
        simp [hlen]
      rw [List.getD_eq_getElem?_getD, hrs.present _ _ _ hrec i p hin]
      rfl

theorem tryDecodeBlockChecked_eq (hrs : Restores rs k) (h : Rep k b) :
    b.tryDecodeBlockChecked rs = some (b.tryDecodeBlock rs) := by
  have hle := h.le_length
  have hdata : (List.range b.k).mapM (fun i => b.packets[i]?) =
      some ((List.range b.k).map b.slot) := by
    refine mapM_eq_some_map fun i hi => getElem?_packets ?_
    have := List.mem_range.mp hi
    omega
  have hok : ((List.range b.k).map b.slot).countP Option.isSome = b.dataOk := by
    rw [List.countP_map]
    rfl
  have hsum : b.k + (b.packets.length - b.k) = b.packets.length := by omega
  have hshards : ∀ len,
      (List.range (b.k + (b.packets.length - b.k))).mapM (fun i => b.packets[i]?.map fun p =>
      p.map fun p => if p.length < len then padded len p else p) = some (b.decodeShards len) := by
    intro len
    rw [hsum, mapM_eq_some_map (g := fun i => (b.slot i).map fun p => if p.length < len
      then padded len p else p)]
    · conv_rhs => rw [decodeShards, ← map_slot_range b, List.map_map]
      refine congrArg some (List.map_congr_left fun i _ => ?_)
      simp only [Function.comp_apply]
      cases b.slot i with
      | none => rfl
      | some p => simp only [Option.map_some]; split <;> rfl
    · intro i hi
      rw [getElem?_packets (List.mem_range.mp hi), Option.map_some]
  unfold tryDecodeBlockChecked tryDecodeBlock
  rw [hdata, Option.bind_some, hok]
  split
  · rfl
  · simp only
    split
    · rfl
    · rw [hshards, Option.bind_some]
      cases hrec :
        reconstruct rs b.k (b.packets.length - b.k)
        (b.decodeShards (maxLen (b.packets.filterMap id))) with
      | none => rfl
      | some shards =>
        rw [h.k_eq] at hrec
        have hall := hrs.data _ _ _ hrec
        obtain ⟨filled, hloop, hlen, hget⟩ := copyBack_spec (k := b.k) hle fun i hi =>
          hall i (h.k_eq ▸ hi)
        have hfilled : filled = (List.range b.packets.length).map fun i =>
            if i < b.k && (b.slot i).isNone then shards.getD i none else b.slot i := by
          refine ext_getD (by simpa using hlen) fun i => ?_
          rw [getD_restored shards hle]
          exact hget i
        simp only [shared_eq hrs hrec, hloop, Option.map_some, hfilled]

theorem receiveChecked_eq (hrs : Restores rs k) (h : Rep k b) (p : Packet) :
    b.receiveChecked rs p = some (b.receive rs p) := by
  unfold receiveChecked RxBlock.receive
  rw [storeChecked_eq, Option.bind_some]
  simp only
  split
  · exact tryDecodeBlockChecked_eq hrs (h.store _ _)
  · rfl

theorem filterMap_missing (slot : Nat → Option Bytes) (seq : Nat → UInt8) (l : List Nat) :
    (l.map fun i => if (slot i).isSome then none else some (seq i)).filterMap id =
      (l.filter fun i => (slot i).isNone).map seq := by
  induction l with
  | nil => rfl
  | cons i l ih =>
    rw [List.map_cons]
    cases hs : slot i with
    | none => simpa [hs] using ih
    | some p => simpa [hs] using ih

theorem naksChecked_eq (h : Rep k b) :
    b.naksChecked = some (b.missing.map fun i => b.seqNums.getD i 0) := by
  have hmap : ∀ i ∈ List.range b.k, (b.packets[i]?.bind fun slot =>
      if slot.isSome then some none else b.seqNums[i]?.map some) =
      some (if (b.slot i).isSome then none else some (b.seqNums.getD i 0)) := by
    intro i hi
    have hlt := List.mem_range.mp hi
    have hle := h.le_length
    have hseq := h.length_seqNums
    rw [getElem?_packets (by omega), Option.bind_some]
    split
    · rfl
    · rw [List.getD_eq_getElem?_getD, List.getElem?_eq_getElem (by omega)]
      rfl
  rw [naksChecked, mapM_eq_some_map hmap, Option.map_some, missing, filterMap_missing]

theorem extractChecked_eq {i : Nat} (hi : i < b.packets.length) :
    b.extractChecked i = some (extract (b.slot i)) := by
  rw [extractChecked, getElem?_packets hi, Option.bind_some]
  rcases b.slot i with _ | _ | ⟨hi, _ | ⟨lo, rest⟩⟩
  · rfl
  · rfl
  · rfl
  · have hlen : uint16At (hi :: lo :: rest) 0 = some (uint16 hi lo) := by simp [uint16At, slice]
    simp only [Option.getD_some, hlen, Option.bind_some, extract, List.length_cons]
    rw [if_neg (by omega)]
    split
    · rename_i hc
      rw [slice, if_pos ⟨by omega, by simp only [List.length_cons]; omega⟩, Nat.add_comm 2]
      rfl
    · rfl

/-- The accesses of `HandleDataPacket` and `tryDecodeBlock`, of the NAK loop that `handleLQRTimeout`
starts, and of the writer are in range; `handleLQRTimeout` itself ranges over the slots. -/
structure InRange (rs : ReedSolomon) (b : RxBlock) : Prop where
  receive : ∀ p : Packet, b.receiveChecked rs p = some (b.receive rs p)
  naks : b.naksChecked = some (b.missing.map fun i => b.seqNums.getD i 0)
  write : ∀ i < b.k, b.extractChecked i = some (extract (b.slot i))

theorem Rep.inRange (hrs : Restores rs k) (h : Rep k b) : InRange rs b where
  receive := receiveChecked_eq hrs h
  naks := naksChecked_eq h
  write _ hi := extractChecked_eq (Nat.lt_of_lt_of_le hi h.le_length)

end RxBlock

/-! ## All runs -/

/-- **Representation invariant.** Whatever packets arrive and whatever `Reconstruct` answers: every
open block is well formed, every access to a block, open or about to be opened, is in
range, a block stays decoded with the same data until the writer has passed its group,
and the block that is being written is decoded. -/
theorem rxBlock_representation {rs : ReedSolomon} {cfg : Config} {s : Session}
    (hrs : Restores rs cfg.fecK) (hr : Reach (session rs cfg) (fun _ _ => True) s) :
    (∀ g b, s.rx.rxBlocks.lookup g = some b →
      b.Rep cfg.fecK ∧ b.k ≤ b.packets.length ∧ b.packets.countP Option.isSome ≤ b.packets.length) ∧
    (∀ g, (s.rx.blockFor cfg g).InRange rs) ∧
    (∀ g b, s.rx.rxBlocks.lookup g = some b →
      ∀ s', Reach { session rs cfg with init := s } (fun _ _ => True) s' →
        (∃ b', s'.rx.rxBlocks.lookup g = some b' ∧ b.Later b') ∨ ∃ n, s.rx.written ≤ n ∧
        n < s'.rx.written ∧ g = UInt16.ofNat n) ∧
    ∀ i, s.rx.writer = .write i → ∃ b, s.rx.current = some b ∧ b.decoded = true := by
  obtain ⟨h, hcount, hwatch⟩ : s.rx.Rep cfg.fecK ∧ s.rx.nextWriteGrp = UInt16.ofNat s.rx.written ∧
      Watching s.cancelled s.rx := by
    refine session_run (I := fun s => s.rx.Rep cfg.fecK ∧
      s.rx.nextWriteGrp = UInt16.ofNat s.rx.written ∧
      Watching s.cancelled s.rx) ⟨?_, rfl, watching_new⟩ ?_ hr
    · intro g b hb
      simp [newSession] at hb
    · rintro s e s' out ⟨h, hcount, hwatch⟩ - hs
      exact ⟨h.step hrs hs, Session.step_counted hcount hs, hwatch.session hs⟩
  refine ⟨fun g b hb => ⟨h g b hb, (h g b hb).le_length, List.countP_le_length⟩,
    fun g => (h.blockFor g).inRange hrs, fun g b hb s' hr' =>
    later_of_reach hrs h hcount hb hr', fun i hi => ?_⟩
  exact hwatch.block (by simp [hi, Writer.busy])

theorem restores_twoOne : Restores reedSolomonTwoOne 2 := by
  have hshape : ∀ m shards out, reconstruct reedSolomonTwoOne 2 m shards = some out →
      reconstructTwoOne shards = some out := by
    intro m shards out h
    unfold reconstruct at h
    split at h
    · cases h
    · split at h
      · cases h
      · rename_i enc henc
        obtain ⟨-, rfl⟩ := new_twoOne henc
        exact h
  constructor
  · intro m shards out h i hi
    have h' := hshape m shards out h
    unfold reconstructTwoOne at h'
    split at h'
    all_goals
      cases h'
    all_goals
      obtain rfl | rfl : i = 0 ∨ i = 1 := by omega
      · exact ⟨_, rfl⟩
      · exact ⟨_, rfl⟩
  · intro m shards out h i p hp
    have h' := hshape m shards out h
    unfold reconstructTwoOne at h'
    split at h'
    all_goals
      cases h'
    all_goals
      rcases i with _ | _ | _ | i
      all_goals simp_all

/-- A forged parity packet decodes group 0, and the data packet that comes later changes nothing. -/
theorem rxBlock_representation_small :
    ∃ s, Reach (session reedSolomonTwoOne smallConfig) (fun _ _ => True) s ∧
      (s.rx.rxBlocks.lookup 0).map (fun b => (b.decoded, b.receivedCnt)) = some (true, 2) ∧
      (s.rx.blockFor smallConfig 0).InRange reedSolomonTwoOne := by
  obtain ⟨s, hr, hb⟩ : ∃ s, Reach (session reedSolomonTwoOne smallConfig) (fun _ _ => True) s ∧
      (s.rx.rxBlocks.lookup 0).map (fun b => (b.decoded, b.receivedCnt)) = some (true, 2) :=
    Reach.exists_of_runOk _ [.launch,
      .recv { type := .data, streamID := 1, idx := 0, payload := [0, 1, 7] },
      .recv { type := .data, streamID := 1, idx := 2, payload := [5, 5, 5] },
      .recv { type := .data, streamID := 1, idx := 1, payload := [0, 1, 9] }] (by decide +kernel)
  exact ⟨s, hr, hb,
    (@rxBlock_representation reedSolomonTwoOne smallConfig s restores_twoOne hr).2.1 0⟩

end TcpPep
