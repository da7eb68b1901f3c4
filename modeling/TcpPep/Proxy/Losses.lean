import Mathlib.Order.Lattice.Nat
import TcpPep.Proxy.Reports

/-!
The losses an LQR reports.

`handleLQRTimeout` takes the highest slot in use as the end of the block and subtracts
`ReceivedCnt`. A slot that the decoder has filled is in use and not counted, and the original that
comes later finds it taken.

* `expectedTotal`, `expectedLosses`: the losses among the packets of a block, from the indices that
  came;
* `Life.Of.losses_eq`: what is reported is computed from the packets that were stored;
* `StoredFirst`: the first packet of an index finds its slot empty;
* `lqr_losses_exact`: the report is exact in every run of this kind, and otherwise too high by the
  number of late originals;
* `late_original_lost`: a block that came whole and is reported with one loss.
-/

namespace TcpPep

open Protocol Fec FiniteMap Events

/-! ## The losses of a block -/

/-- Where a block of `k` data packets ends, given the indices that came: after its data, or after
the highest index if a parity packet came. -/
def expectedTotal (k : Nat) (arrived : Finset Nat) : Nat :=
  if ∃ i ∈ arrived, k ≤ i then arrived.sup fun i => i + 1 else k

/-- The indices below the end of which no packet came. -/
def lost (k : Nat) (arrived : Finset Nat) : Finset Nat :=
  Finset.range (expectedTotal k arrived) \ arrived

def expectedLosses (k : Nat) (arrived : Finset Nat) : Nat := min 255 (lost k arrived).card

section Expected

variable {k : Nat} {A B : Finset Nat}

theorem expectedTotal_eq_max (k : Nat) (A : Finset Nat) :
    expectedTotal k A = max k (A.sup fun i => i + 1) := by
  unfold expectedTotal
  split
  · rename_i hpar
    obtain ⟨i, hi, hk⟩ := hpar
    have hle : i + 1 ≤ A.sup fun i => i + 1 := Finset.le_sup (f := fun i => i + 1) hi
    omega
  · rename_i hdata
    have hle : (A.sup fun i => i + 1) ≤ k := by
      refine Finset.sup_le fun i hi => ?_
      by_contra hlt
      exact hdata ⟨i, hi, by omega⟩
    omega

theorem subset_expectedTotal (k : Nat) (A : Finset Nat) : A ⊆ Finset.range (expectedTotal k A) := by
  intro i hi
  rw [Finset.mem_range, expectedTotal_eq_max]
  have hle : i + 1 ≤ A.sup fun i => i + 1 := Finset.le_sup (f := fun i => i + 1) hi
  omega

theorem card_lost (k : Nat) (A : Finset Nat) : (lost k A).card = expectedTotal k A - A.card := by
  rw [lost, Finset.card_sdiff_of_subset (subset_expectedTotal k A), Finset.card_range]

/-- Data indices do not move the end of a block. -/
theorem expectedTotal_of_late (hsub : B ⊆ A) (hlate : ∀ i ∈ A \ B, i < k) :
    expectedTotal k A = expectedTotal k B := by
  rw [expectedTotal_eq_max, expectedTotal_eq_max]
  have hle : (A.sup fun i => i + 1) ≤ max k (B.sup fun i => i + 1) := by
    refine Finset.sup_le fun i hi => ?_
    by_cases hB : i ∈ B
    · exact (Finset.le_sup (f := fun i => i + 1) hB).trans (Nat.le_max_right _ _)
    · have := hlate i (Finset.mem_sdiff.mpr ⟨hi, hB⟩)
      omega
  have hge : (B.sup fun i => i + 1) ≤ A.sup fun i => i + 1 := Finset.sup_mono hsub
  omega

/-- Leaving out data indices adds one loss for each. -/
theorem card_lost_of_late (hsub : B ⊆ A) (hlate : ∀ i ∈ A \ B, i < k) :
    (lost k B).card = (lost k A).card + (A \ B).card := by
  have hA := Finset.card_le_card (subset_expectedTotal k A)
  have hB := Finset.card_le_card hsub
  have hdiff := Finset.card_sdiff_of_subset hsub
  rw [Finset.card_range] at hA
  rw [card_lost, card_lost, ← expectedTotal_of_late hsub hlate]
  omega

end Expected

/-! ## What the code computes -/

/-- The loop over the slots ends after the last one in use. -/
theorem RxBlock.used_spec (b : RxBlock) (n : Nat) :
    let used := (List.range n).foldl (fun u i => if (b.slot i).isSome then i + 1 else u) 0
    (∀ i < n, (b.slot i).isSome = true → i + 1 ≤ used) ∧
      (used = 0 ∨ ∃ i < n, (b.slot i).isSome = true ∧ used = i + 1) := by
  induction n with
  | zero => exact ⟨by simp, Or.inl rfl⟩
  | succ n ih =>
    simp only [List.range_succ, List.foldl_append, List.foldl_cons, List.foldl_nil] at ih ⊢
    obtain ⟨hmax, hlast⟩ := ih
    split
    · rename_i hfull
      constructor
      · intro i hi _
        omega
      · exact Or.inr ⟨n, by omega, hfull, rfl⟩
    · rename_i hempty
      constructor
      · intro i hi hfull
        rcases Nat.lt_succ_iff_lt_or_eq.mp hi with hlt | rfl
        · exact hmax i hlt hfull
        · exact absurd hfull hempty
      · rcases hlast with hzero | ⟨i, hi, hfull, hused⟩
        · exact Or.inl hzero
        · exact Or.inr ⟨i, by omega, hfull, hused⟩

theorem RxBlock.lt_length_of_slot {b : RxBlock} {i : Nat} (h : (b.slot i).isSome = true) :
    i < b.packets.length := by
  by_contra hge
  simp [RxBlock.slot, List.getD_eq_getElem?_getD, List.getElem?_eq_none (not_lt.mp hge)] at h

/-- **What is reported** are the losses among the packets that were stored. -/
theorem Life.Of.losses_eq {cfg : Config} {b : RxBlock} {l : Life} (h : l.Of cfg b) :
    b.losses = expectedLosses cfg.fecK l.counted := by
  obtain ⟨hmax, hlast⟩ := b.used_spec b.packets.length
  simp only [RxBlock.losses, expectedLosses, card_lost, h.card, expectedTotal_eq_max]
  generalize (List.range b.packets.length).foldl (fun u i => if (b.slot i).isSome then i + 1
    else u) 0 = used
    at hmax hlast ⊢
  have hge : (l.counted.sup fun i => i + 1) ≤ used := by
    apply Finset.sup_le
    intro i hi
    exact hmax i (RxBlock.lt_length_of_slot (h.stored i hi)) (h.stored i hi)
  have hle : used ≤ max cfg.fecK (l.counted.sup fun i => i + 1) := by
    rcases hlast with hzero | ⟨i, -, hfull, hused⟩
    · omega
    · by_cases hk : b.k ≤ i
      · have hsup := Finset.le_sup (f := fun i => i + 1) (h.parity i hk hfull)
        omega
      · have := h.k_eq
        omega
  have hk := h.k_eq
  have htotal :
      (if used > b.k then used else b.k) = max cfg.fecK (l.counted.sup fun i => i + 1) := by
    split <;> omega
  rw [htotal]

/-! ## Packets that are stored when they first come -/

/-- The first packet of an index that comes before the report finds its slot empty, the group not
behind the writer and the receiving half open. -/
def StoredFirst (cfg : Config) (s : Reporting) : SessionEvent → Prop
  | .recv p =>
    p.type = .data → (s.session.rx.rxBlocks.lookup p.groupID).any (fun b => !b.lqrReported) = true →
      p.idx.toNat ∉ (s.life p.groupID).arrived → s.session.rx.stores cfg p = true
  | _ => True

instance (cfg : Config) (s : Reporting) (e : SessionEvent) : Decidable (StoredFirst cfg s e) :=
  match e with
  | .recv p => inferInstanceAs (Decidable (p.type = .data →
      (s.session.rx.rxBlocks.lookup p.groupID).any (fun b => !b.lqrReported) = true →
      p.idx.toNat ∉ (s.life p.groupID).arrived → s.session.rx.stores cfg p = true))
  | .launch | .start | .tx _ | .rx _ | .finishHandler | .cancel => .isTrue trivial

namespace Reporting

variable {rs : ReedSolomon} {cfg : Config} {s : Reporting}

/-- Every packet of a block that is not reported has been counted. -/
def AllCounted (s : Reporting) : Prop :=
  ∀ g b, s.session.rx.rxBlocks.lookup g = some b → b.lqrReported = false →
    (s.life g).arrived = (s.life g).counted

variable {t : Reporting} {e : SessionEvent} {out : List Bytes} {g : UInt16}

/-- A step leaves the packets of a block as they are, or notes the one that comes. -/
theorem life_step (hs : s.step rs cfg e = some (t, out))
    (hb : t.session.rx.rxBlocks.lookup g ≠ none) :
    ((t.life g).arrived = (s.life g).arrived ∧ (t.life g).counted = (s.life g).counted) ∨
      ∃ p, e = .recv p ∧ p.type = .data ∧ p.groupID = g ∧
        t.life g = (s.life g).arrive (s.session.rx.stores cfg p) p.idx.toNat := by
  have hlife : t.life g = s.observe cfg e t.session out g := by rw [(session_step hs).2]
  obtain ⟨b, hthere⟩ := Option.ne_none_iff_exists'.mp hb
  cases e with
  | recv p =>
    simp only [observe, hthere] at hlife
    rw [hlife]
    split
    · rename_i hdata
      exact Or.inr ⟨p, rfl, hdata.1, hdata.2, rfl⟩
    · exact Or.inl ⟨rfl, rfl⟩
  | _ =>
    simp only [observe, hthere] at hlife
    rw [hlife]
    exact Or.inl ⟨rfl, rfl⟩

/-- A packet that makes a new block is stored in it. -/
theorem stores_of_new {r : Receiver} {p : Packet} (hnone : r.rxBlocks.lookup p.groupID = none)
    (hsome : (r.handleDataPacket rs cfg p).rxBlocks.lookup p.groupID ≠ none) :
    r.stores cfg p = true := by
  have hempty : ((r.blockFor cfg p.groupID).slot p.idx.toNat).isNone = true := by
    rw [Receiver.blockFor, hnone, Option.getD_none]
    cases hslot : (newRxBlock cfg p.groupID).slot p.idx.toNat with
    | none => rfl
    | some q =>
      have hmem := List.mem_of_getElem? (RxBlock.slot_eq_some.mp hslot)
      simp [newRxBlock] at hmem
  cases hopen : r.recvClosed with
  | true => simp [Receiver.handleDataPacket, hopen, hnone] at hsome
  | false =>
    cases hold : after r.nextWriteGrp p.groupID with
    | true => simp [Receiver.handleDataPacket, hopen, hold, hnone] at hsome
    | false => simp [Receiver.stores, hopen, hold, hempty]

end Reporting

theorem unreported_before {rs : ReedSolomon} {cfg : Config} {s s' : Session} {e : SessionEvent}
    {out : List Bytes} {g : UInt16} {b' : RxBlock} (hs : s.step rs cfg e = some (s', out))
    (hb' : s'.rx.rxBlocks.lookup g = some b') (hnew : b'.lqrReported = false) :
    s.rx.rxBlocks.lookup g = none ∨ ∃ b, s.rx.rxBlocks.lookup g = some b ∧
    b.lqrReported = false := by
  have hentry := Session.step_entry hs g
  rw [hb'] at hentry
  generalize s.rx.rxBlocks.lookup g = entry at hentry ⊢
  cases hentry with
  | same => exact Or.inr ⟨b', rfl, hnew⟩
  | new => exact Or.inl rfl
  | change b _ hrep =>
    refine Or.inr ⟨b, rfl, Bool.eq_false_iff.mpr fun hold => ?_⟩
    rw [hrep hold] at hnew
    cases hnew

namespace Reporting

variable {rs : ReedSolomon} {cfg : Config} {s t : Reporting} {e : SessionEvent} {out : List Bytes}

theorem AllCounted.step (h : s.AllCounted) (hrec : s.Recorded cfg) (hok : StoredFirst cfg s e)
    (hs : s.step rs cfg e = some (t, out)) : t.AllCounted := by
  intro g b' hb' hnew
  have hstep := (session_step hs).1
  have hbefore := unreported_before hstep hb' hnew
  have heq : (s.life g).arrived = (s.life g).counted := by
    rcases hbefore with hnone | ⟨b, hb, hunrep⟩
    · rw [hrec.absent g hnone]
    · exact h g b hb hunrep
  have hthere : t.session.rx.rxBlocks.lookup g ≠ none := by simp [hb']
  rcases life_step hs hthere with ⟨harr, hcnt⟩ | ⟨p, rfl, ht, rfl, hlife⟩
  · rw [harr, hcnt, heq]
  · rw [hlife]
    by_cases hseen : p.idx.toNat ∈ (s.life p.groupID).arrived
    · -- a duplicate: both sets stay as they are
      have hcounted : p.idx.toNat ∈ (s.life p.groupID).counted := heq ▸ hseen
      rw [Life.arrive, Finset.insert_eq_of_mem hseen, Finset.insert_eq_of_mem hcounted, ite_self]
      exact heq
    · have hstores : s.session.rx.stores cfg p = true := by
        rcases hbefore with hnone | ⟨b, hb, hunrep⟩
        · have hrx : t.session.rx = s.session.rx.handleDataPacket rs cfg p := by
            have hrecv := Session.stepped_of_step hstep
            generalize t.session = s' at hrecv
            cases hrecv with
            | recv _ hd => simp [Session.handle, ht]
          exact stores_of_new hnone (hrx ▸ hthere)
        · exact hok ht (by simp [hb, hunrep]) hseen
      simp only [Life.arrive, hstores, if_true, heq]

end Reporting

theorem allCounted_of_reach {rs : ReedSolomon} {cfg : Config} {s : Reporting}
    (hr : Reach (reporting rs cfg) (StoredFirst cfg) s) : s.AllCounted := by
  induction hr with
  | init => simp [Reporting.AllCounted, reporting, newSession]
  | step hr hok hs ih =>
    obtain ⟨⟨_, out⟩, hstep, rfl⟩ := Option.map_eq_some_iff.mp hs
    exact ih.step (recorded_of_reach hr) hok hstep

/-! ## The report -/

/-- A step that sends one datagram, from what is read off its output. -/
theorem Reporting.step_of_single {rs : ReedSolomon} {cfg : Config} {s : Reporting}
    {e : SessionEvent} {α : Type} {f : Bytes → α} {x : α}
    (h : ((s.step rs cfg e).map fun r => r.2.map f) = some [x]) :
    ∃ t a, s.step rs cfg e = some (t, [a]) ∧ f a = x := by
  obtain ⟨⟨t, out⟩, hstep, hout⟩ := Option.map_eq_some_iff.mp h
  obtain ⟨a, rfl, hx⟩ := List.map_eq_singleton_iff.mp hout
  exact ⟨t, a, hstep, hx⟩

/-- What an LQR reports, in every run. -/
theorem losses_of_lqr {rs : ReedSolomon} {cfg : Config} {ok : Reporting → SessionEvent → Prop}
    {s s' : Reporting} (hr : Reach (reporting rs cfg) ok s) {ev : RxEvent} {out : List Bytes}
    (hs : s.step rs cfg (.rx ev) = some (s', out)) {a : Bytes} (ha : a ∈ out) {g : UInt16}
    {losses : UInt8} (hlqr : lqrOf a = some (g, losses)) :
    ∃ b, s.session.rx.rxBlocks.lookup g = some b ∧ b.lqrReported = false ∧
      losses.toNat = expectedLosses cfg.fecK (s.life g).counted := by
  obtain ⟨⟨t, out'⟩, hstep, heq⟩ := Option.map_eq_some_iff.mp hs
  cases heq
  cases Session.stepped_of_step hstep with
  | rx _ eff heff =>
    obtain ⟨b, hb, hnew, rfl⟩ := unreported_of_lqr heff ha hlqr
    have hlosses := ((recorded_of_reach hr).present g b hb).losses_eq
    have hle : b.losses ≤ 255 := by
      rw [hlosses]
      exact Nat.min_le_left _ _
    refine ⟨b, hb, hnew, ?_⟩
    rw [UInt8.toNat_ofNat', hlosses, Nat.mod_eq_of_lt]
    omega

/-- **Reported losses.** In every run in which the first packet of an index is always stored, an LQR
reports exactly the losses among the packets that came before it: a function of their set, whatever
their order, and 0 if none is missing. In any other run, when all that was not stored are data
packets, it reports one more for each of them, and is exact only if there is none or the field is
full. -/
theorem lqr_losses_exact (rs : ReedSolomon) (cfg : Config) :
    (∀ s, Reach (reporting rs cfg) (StoredFirst cfg) s →
      ∀ ev s' out, s.step rs cfg (.rx ev) = some (s', out) →
        ∀ a ∈ out, ∀ g losses, lqrOf a = some (g, losses) → losses.toNat = expectedLosses cfg.fecK
        (s.life g).arrived ∧
        (Finset.range (expectedTotal cfg.fecK (s.life g).arrived) ⊆ (s.life g).arrived →
          losses = 0)) ∧
    ∀ s, Reach (reporting rs cfg) (fun _ _ => True) s → ∀ ev s' out, s.step rs cfg
      (.rx ev) = some (s', out) → ∀ a ∈ out, ∀ g losses, lqrOf a = some (g, losses) →
        (∀ i ∈ (s.life g).arrived \ (s.life g).counted, i < cfg.fecK) →
        losses.toNat = min 255
        ((lost cfg.fecK (s.life g).arrived).card + ((s.life g).arrived \ (s.life g).counted).card) ∧
        (losses.toNat = expectedLosses cfg.fecK (s.life g).arrived ↔
          (s.life g).arrived = (s.life g).counted ∨
          255 ≤ (lost cfg.fecK (s.life g).arrived).card) := by
  constructor
  · intro s hr ev s' out hs a ha g losses hlqr
    obtain ⟨b, hb, hnew, hlosses⟩ := losses_of_lqr hr hs ha hlqr
    rw [← allCounted_of_reach hr g b hb hnew] at hlosses
    refine ⟨hlosses, fun hall => ?_⟩
    rw [expectedLosses, lost, Finset.sdiff_eq_empty_iff_subset.mpr hall] at hlosses
    exact UInt8.toNat_inj.mp hlosses
  · intro s hr ev s' out hs a ha g losses hlqr hlate
    obtain ⟨b, hb, hnew, hlosses⟩ := losses_of_lqr hr hs ha hlqr
    have hsub := ((recorded_of_reach hr).present g b hb).sub
    rw [expectedLosses, card_lost_of_late hsub hlate] at hlosses
    refine ⟨hlosses, ?_⟩
    rw [hlosses, expectedLosses]
    constructor
    · intro heq
      by_cases hfull : 255 ≤ (lost cfg.fecK (s.life g).arrived).card
      · exact Or.inr hfull
      · have hzero : ((s.life g).arrived \ (s.life g).counted).card = 0 := by omega
        rw [Finset.card_eq_zero, Finset.sdiff_eq_empty_iff_subset] at hzero
        exact Or.inl (hzero.antisymm hsub)
    · rintro (heq | hfull)
      · rw [heq, Finset.sdiff_self, Finset.card_empty, Nat.add_zero]
      · omega

/-- All three packets of a block come in order and are reported so. -/
theorem lqr_losses_in_order :
    ∃ s s' a, Reach (reporting reedSolomonTwoOne smallConfig) (StoredFirst smallConfig) s ∧
      s.step reedSolomonTwoOne smallConfig (.rx (.lqrRun 0)) = some (s', [a]) ∧
      (s.life 0).arrived = {0, 1, 2} ∧
      ∃ losses, lqrOf a = some (0, losses) ∧ losses.toNat = expectedLosses 2 {0, 1, 2} := by
  obtain ⟨s, hr, harr, hsent⟩ :
      ∃ s, Reach (reporting reedSolomonTwoOne smallConfig) (StoredFirst smallConfig) s ∧
        (s.life 0).arrived = {0, 1, 2} ∧
        ((s.step reedSolomonTwoOne smallConfig (.rx (.lqrRun 0))).map fun r => r.2.map fun a =>
          (lqrOf a).map Prod.fst) = some [some 0] :=
    Reach.exists_of_runOk _ [.launch, .start, .recv (dataPacket smallConfig 0 0 0 (frame [7])),
      .recv (dataPacket smallConfig 0 1 1 (frame [9])),
      .recv (parityPacket smallConfig 0 0 (List.zipWith parityByte (frame [7]) (frame [9]))),
      .rx (.lqrFire 0)]
      (by decide +kernel)
  obtain ⟨s', a, hstep, hgroup⟩ := Reporting.step_of_single hsent
  obtain ⟨⟨g, losses⟩, hlqr, rfl⟩ := Option.map_eq_some_iff.mp hgroup
  have hlosses :=
    (lqr_losses_exact reedSolomonTwoOne smallConfig).1 s hr _ _ _ hstep a (by simp) 0 losses hlqr
  rw [harr] at hlosses
  exact ⟨s, s', a, hr, hstep, harr, losses, hlqr, hlosses.1⟩

/-- The parity packet comes before the second data packet: the decoder fills slot 1, the original
finds it taken, and the block is reported with one loss although all its packets came. -/
theorem late_original_lost :
    ∃ s s' a, Reach (reporting reedSolomonTwoOne smallConfig) (fun _ _ => True) s ∧
      s.step reedSolomonTwoOne smallConfig (.rx (.lqrRun 0)) = some (s', [a]) ∧
      (s.life 0).arrived = {0, 1, 2} ∧
      lqrOf a = some (0, 1) ∧ expectedLosses 2 {0, 1, 2} = 0 := by
  obtain ⟨s, hr, harr, hsent⟩ :
      ∃ s, Reach (reporting reedSolomonTwoOne smallConfig) (fun _ _ => True) s ∧
        (s.life 0).arrived = {0, 1, 2} ∧
        ((s.step reedSolomonTwoOne smallConfig (.rx (.lqrRun 0))).map fun r => r.2.map lqrOf) =
        some [some (0, 1)] :=
    Reach.exists_of_runOk _ [.launch, .start, .recv (dataPacket smallConfig 0 0 0 (frame [7])),
      .recv (parityPacket smallConfig 0 0 (List.zipWith parityByte (frame [7]) (frame [9]))),
      .recv (dataPacket smallConfig 0 1 1 (frame [9])), .rx (.lqrFire 0)] (by decide +kernel)
  obtain ⟨s', a, hstep, hlqr⟩ := Reporting.step_of_single hsent
  exact ⟨s, s', a, hr, hstep, harr, hlqr, by decide⟩

end TcpPep
