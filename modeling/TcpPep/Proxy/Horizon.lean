import TcpPep.Proxy.Link

/-!
The highest group a receiver has seen.

`maxRecvGrp` is a residue; `horizon` is the number of blocks it stands for, one
more than the number of the highest block received.

* `Tracked`: a block within 32767 of the writer and of the highest block received;
* `noteGroup_horizon`: for such blocks `maxRecvGrp` is the running maximum;
* `Tracking`: what `maxRecvGrp` then says about the history;
* `Tracking.drained_iff`: what the writer's exit test says;
* `tracking_stable`: every step keeps it.
-/

namespace TcpPep

open Protocol Fec FiniteMap ErasureCode Events

/-- One more than the number of the highest block received, zero if there is none. -/
def Receiver.horizon (r : Receiver) : Nat :=
  if r.hasRecv then Serial.unwrap 65536 r.written (r.maxRecvGrp.toNat + 1) else 0

/-- Within 32767 blocks of the writer and of the highest block received. -/
def Tracked (r : Receiver) (b : Nat) : Prop :=
  Near r b ∧ (r.hasRecv = true → b + 1 ≤ r.horizon + 32767 ∧ r.horizon ≤ b + 1 + 32767)

instance (r : Receiver) (b : Nat) : Decidable (Tracked r b) := inferInstanceAs (Decidable (_ ∧ _))

theorem Near.inTurn {r : Receiver} {b : Nat} (h : Near r b) : InTurn r b := by
  obtain ⟨hhi, hlo⟩ := h
  exact ⟨hlo, by omega⟩

/-- What is dropped as old is behind the writer. -/
theorem Near.lt_of_old {r : Receiver} {b : Nat} (h : Near r b)
    (hn : r.nextWriteGrp = UInt16.ofNat r.written)
    (hold : after r.nextWriteGrp (UInt16.ofNat b) = true) : b < r.written := by
  obtain ⟨hhi, -⟩ := h
  rw [hn, after_ofNat] at hold
  by_contra hge
  by_cases heq : b = r.written
  · rw [heq, Serial.dist_self] at hold
    omega
  · rw [Serial.dist_of_lt (by omega) (by omega), Nat.mod_eq_of_lt (by omega)] at hold
    omega

theorem horizon_of_block {w b : Nat} (hle : w ≤ b + 1) (hlt : b + 1 < w + 65536) :
    Serial.unwrap 65536 w ((UInt16.ofNat b).toNat + 1) = b + 1 := by
  have hmod : ((UInt16.ofNat b).toNat + 1) % 65536 = (b + 1) % 65536 := by
    rw [UInt16.toNat_ofNat']
    omega
  rw [← Serial.unwrap_mod_arg, hmod, Serial.unwrap_mod_arg]
  exact Serial.unwrap_eq_self hle hlt

/-- What `maxRecvGrp` and `hasRecv` say about the peer's history. -/
structure Tracking {k n : Nat} (code : Code UInt8 k n) (sent : List Block) (r : Receiver) :
    Prop where
  le_sent : r.horizon ≤ sent.length
  le_window : r.horizon ≤ r.written + 32768
  pos : r.hasRecv = true → 1 ≤ r.horizon
  unheard : r.hasRecv = false → r.written = 0
  filled : ∀ g e, r.rxBlocks.lookup g = some e → Blank code e ∨ blockOf r.written g < r.horizon

section Tracking

variable {rs : ReedSolomon} {lc : LinkConfig} {n : Nat} {code : Code UInt8 lc.fecK n}
  {sent : List Block} {r r' : Receiver} {b : Nat}

theorem tracking_init : Tracking code [] {} :=
  ⟨Nat.le_refl _, Nat.zero_le _, (nomatch ·), fun _ => rfl, fun g e he => by simp at he⟩

theorem Tracking.extend {sent' : List Block} (hpre : sent <+: sent') (h : Tracking code sent r) :
    Tracking code sent' r :=
  ⟨Nat.le_trans h.le_sent hpre.length_le, h.le_window, h.pos, h.unheard, h.filled⟩

theorem Tracking.written_le (h : Tracking code sent r) : r.written ≤ r.horizon := by
  cases hr : r.hasRecv with
  | false =>
    rw [h.unheard hr]
    exact Nat.zero_le _
  | true =>
    rw [Receiver.horizon, if_pos hr]
    exact Serial.le_unwrap _ _ _

theorem Tracking.maxRecvGrp (h : Tracking code sent r) (hr : r.hasRecv = true) :
    r.maxRecvGrp = UInt16.ofNat (r.horizon - 1) := by
  have hpos := h.pos hr
  have hmod : r.horizon % 65536 = (r.maxRecvGrp.toNat + 1) % 65536 := by
    rw [Receiver.horizon, if_pos hr]
    exact Serial.unwrap_mod (by decide) _ _
  have hlt := r.maxRecvGrp.toNat_lt
  rw [← UInt16.toNat_inj, UInt16.toNat_ofNat']
  omega

/-- `maxRecvGrp` is a running maximum of block numbers, not of GroupIDs. -/
theorem noteGroup_horizon (h : Tracking code sent r) (ht : Tracked r b) :
    (r.noteGroup (UInt16.ofNat b)).horizon = max r.horizon (b + 1) := by
  obtain ⟨⟨hhi, hlo⟩, hmax⟩ := ht
  cases hr : r.hasRecv with
  | false =>
    have hw := h.unheard hr
    have hzero : r.horizon = 0 := by simp [Receiver.horizon, hr]
    have hnew : (r.noteGroup (UInt16.ofNat b)).horizon = b + 1 := by
      simp only [Receiver.noteGroup, hr, Bool.not_false, ↓reduceIte, Receiver.horizon]
      exact horizon_of_block (by omega) (by omega)
    omega
  | true =>
    obtain ⟨hup, hdown⟩ := hmax hr
    have hpos := h.pos hr
    have hwin := h.le_window
    have hge := h.written_le
    have hafter : after (UInt16.ofNat b) r.maxRecvGrp = true ↔ r.horizon < b + 1 := by
      rw [h.maxRecvGrp hr, after_ofNat]
      by_cases hlt : r.horizon < b + 1
      · rw [Serial.dist_of_le (by omega) (by omega)]
        omega
      · by_cases heq : b = r.horizon - 1
        · rw [heq, Serial.dist_self]
          omega
        · rw [Serial.dist_of_lt (by omega) (by omega), Nat.mod_eq_of_lt (by omega)]
          omega
    by_cases hlt : r.horizon < b + 1
    · have hnew : (r.noteGroup (UInt16.ofNat b)).horizon = b + 1 := by
        simp only [Receiver.noteGroup, hr, Bool.not_true, Bool.false_eq_true, ↓reduceIte,
          hafter.mpr hlt, Receiver.horizon]
        exact horizon_of_block (by omega) (by omega)
      omega
    · have hsame : r.noteGroup (UInt16.ofNat b) = r := by
        have hno : after (UInt16.ofNat b) r.maxRecvGrp = false := by
          rw [← Bool.not_eq_true, hafter]
          exact hlt
        simp [Receiver.noteGroup, hr, hno]
      rw [hsame]
      omega

theorem noteGroup_hasRecv (r : Receiver) (g : UInt16) : (r.noteGroup g).hasRecv = true := by
  unfold Receiver.noteGroup
  split
  · rfl
  · rename_i h
    split <;> simpa using h

theorem Tracking.of_eq (h : Tracking code sent r) (hw : r'.written = r.written)
    (hm : r'.maxRecvGrp = r.maxRecvGrp) (hr : r'.hasRecv = r.hasRecv)
    (hs : SameCores r.rxBlocks r'.rxBlocks) : Tracking code sent r' := by
  have hh : r'.horizon = r.horizon := by rw [Receiver.horizon, hw, hm, hr, Receiver.horizon]
  refine ⟨by rw [hh]; exact h.le_sent, by rw [hh, hw]; exact h.le_window, ?_, ?_, ?_⟩
  · rw [hr, hh]
    exact h.pos
  · rw [hr, hw]
    exact h.unheard
  · intro g e' he'
    obtain ⟨e, he, hcore⟩ := hs.lookup he'
    rw [hw, hh]
    rcases h.filled g e he with hb | hb
    · exact Or.inl fun data => (hb data).of_core hcore
    · exact Or.inr hb

theorem Tracking.atBlock (hk : 0 < lc.fecK) (hrx : RxInv code sent r) (h : Tracking code sent r)
    (hat : AtBlock r) : r.written < r.horizon := by
  obtain ⟨e, he, hd⟩ := hat
  rcases h.filled _ e he with hb | hb
  · rw [hb.undecoded hk] at hd
    cases hd
  · rwa [hrx.next, blockOf_ofNat (Nat.le_refl _) (by omega)] at hb

theorem Tracking.written_lt (hk : 0 < lc.fecK) (hrx : RxInv code sent r) (h : Tracking code sent r)
    (hw : r.writer = .cleanup ∨ r.writer = .finish) : r.written < r.horizon := by
  apply h.atBlock hk hrx
  have hp := hrx.progress
  rcases hw with hw | hw
  · simp only [Progress, hw] at hp
    exact hp.1
  · simp only [Progress, hw] at hp
    exact hp.1

/-- The writer moves on inside the blocks received. -/
theorem advance_horizon (hlt : r.written < r.horizon) : r.advance.horizon = r.horizon := by
  have hr : r.hasRecv = true := by
    by_contra hr
    simp [Receiver.horizon, hr] at hlt
  have hadv : r.advance.horizon = Serial.unwrap 65536 (r.written + 1) (r.maxRecvGrp.toNat + 1) := by
    simp [Receiver.horizon, Receiver.advance, hr]
  rw [Receiver.horizon, if_pos hr] at hlt
  rw [hadv, Receiver.horizon, if_pos hr]
  apply Serial.unwrap_succ (by decide)
  intro hmod
  have hup := Serial.unwrap_lt (show 0 < 65536 by decide) r.written (r.maxRecvGrp.toNat + 1)
  rw [← Serial.unwrap_mod (by decide) r.written] at hmod
  have heq := Serial.eq_of_mod_eq (Nat.le_of_lt hlt) hup (Nat.le_refl _) (by omega) hmod
  omega

theorem Tracking.advance (h : Tracking code sent r) (hn : r.nextWriteGrp = UInt16.ofNat r.written)
    (hlt : r.written < r.horizon) : Tracking code sent r.advance := by
  have hr : r.hasRecv = true := by
    by_contra hr
    simp [Receiver.horizon, hr] at hlt
  have hh := advance_horizon hlt
  refine ⟨by rw [hh]; exact h.le_sent, ?_, fun _ => by rw [hh]; exact h.pos hr, ?_, ?_⟩
  · have hwin := h.le_window
    rw [hh]
    show _ ≤ r.written + 1 + 32768
    omega
  · intro hno
    change r.hasRecv = false at hno
    rw [hr] at hno
    cases hno
  · intro g e he
    change (r.rxBlocks.erase r.nextWriteGrp).lookup g = some e at he
    rw [lookup_erase_eq] at he
    split at he
    · cases he
    · rename_i hne
      rw [hh, show r.advance.written = r.written + 1 from rfl, blockOf_succ (hn ▸ hne)]
      exact h.filled g e he

/-- A packet of a tracked block raises the highest block received. -/
theorem Tracking.note (h : Tracking code sent r) (ht : Tracked r b) (hb : b < sent.length) :
    Tracking code sent (r.noteGroup (UInt16.ofNat b)) := by
  have hh := noteGroup_horizon h ht
  have hr := noteGroup_hasRecv r (UInt16.ofNat b)
  have hsent := h.le_sent
  have hwin := h.le_window
  obtain ⟨⟨hhi, -⟩, -⟩ := ht
  obtain ⟨top, has, hnote⟩ := r.noteGroup_eq (UInt16.ofNat b)
  have hw : (r.noteGroup (UInt16.ofNat b)).written = r.written := by rw [hnote]
  have ht : (r.noteGroup (UInt16.ofNat b)).rxBlocks = r.rxBlocks := by rw [hnote]
  refine ⟨by omega, by omega, fun _ => by omega, fun hno => ?_, fun g e he => ?_⟩
  · rw [hr] at hno
    cases hno
  · rw [hw, hh]
    rw [ht] at he
    rcases h.filled g e he with hblank | hlt
    · exact Or.inl hblank
    · right
      omega

theorem Tracking.insert (h : Tracking code sent r) {g : UInt16}
    (hg : blockOf r.written g < r.horizon) (e : RxBlock) :
    Tracking code sent { r with rxBlocks := r.rxBlocks.insert g e } := by
  refine ⟨h.le_sent, h.le_window, h.pos, h.unheard, ?_⟩
  intro g' e' he'
  change (r.rxBlocks.insert g e).lookup g' = some e' at he'
  rw [lookup_insert_eq] at he'
  split at he'
  · rename_i hgg
    rw [hgg]
    exact Or.inr hg
  · exact h.filled g' e' he'

theorem Tracking.recv {x y : Side} {p : Packet} (hrx : RxInv code sent r) (h : Tracking code sent r)
    (hp : FromBlock (lc.side x) sent b p) (ht : Tracked r b) :
    Tracking code sent (r.handleDataPacket rs (lc.side y) p) := by
  have hb : b < sent.length := by
    obtain ⟨blk, hblk, -⟩ := hp
    exact (List.getElem?_eq_some_iff.mp hblk).1
  have hnote := h.note ht hb
  have hh := noteGroup_horizon h ht
  obtain ⟨hlo, hhi⟩ := ht.1.inTurn
  have hcases := hrx.intake hp hlo (r.handleDataPacket_intake rs (lc.side y) p)
  generalize r.handleDataPacket rs (lc.side y) p = r' at hcases
  rcases hcases with rfl | ⟨-, rfl⟩ | ⟨hle, rfl⟩
  · exact h
  · exact hnote
  · obtain ⟨top, has, heq⟩ := r.noteGroup_eq (UInt16.ofNat b)
    have hat : blockOf (r.noteGroup (UInt16.ofNat b)).written (UInt16.ofNat b) <
        (r.noteGroup (UInt16.ofNat b)).horizon := by
      rw [hh, heq, blockOf_ofNat hle hhi]
      omega
    have hin := hnote.insert hat ((r.blockFor (lc.side y) (UInt16.ofNat b)).receive rs p)
    rw [heq] at hin ⊢
    exact hin

theorem Tracking.start (hv : ∀ x, (lc.side x).Valid n) (y : Side) (h : Tracking code sent r) :
    Tracking code sent (Receiver.startInit (lc.side y) r) := by
  unfold Receiver.startInit
  split
  · rename_i hempty
    refine ⟨h.le_sent, h.le_window, h.pos, h.unheard, ?_⟩
    intro g e he
    change (r.rxBlocks.insert 0 _).lookup g = some e at he
    rw [lookup_insert_eq, lookup_of_isEmpty hempty] at he
    split at he
    · cases he
      rw [startRxBlock_eq]
      exact Or.inl fun data =>
        newRxBlock_holding (lc.side y) 0 data (hv y).one_le (hv y).le_rows code
    · cases he
  · exact h

/-- The writer's exit test says that everything received has been written. -/
theorem Tracking.drained_iff (hrx : RxInv code sent r) (h : Tracking code sent r) :
    r.drained = true ↔ r.horizon = r.written := by
  have hwin := h.le_window
  have hge := h.written_le
  cases hr : r.hasRecv with
  | false =>
    have hzero : r.horizon = 0 := by simp [Receiver.horizon, hr]
    have hw := h.unheard hr
    simp [Receiver.drained, hr, hzero, hw]
  | true =>
    have hpos := h.pos hr
    rw [Receiver.drained, hr, Bool.not_true, Bool.false_or, h.maxRecvGrp hr, hrx.next, after_ofNat]
    by_cases heq : r.horizon = r.written
    · rw [Serial.dist_of_le (by omega) (by omega)]
      omega
    · by_cases hlast : r.horizon - 1 = r.written
      · rw [hlast, Serial.dist_self]
        omega
      · rw [Serial.dist_of_lt (by omega) (by omega), Nat.mod_eq_of_lt (by omega)]
        omega

theorem Tracking.move (hk : 0 < lc.fecK) {done closeRecv : Bool} (hrx : RxInv code sent r)
    (h : Tracking code sent r) (hm : Receiver.Move done closeRecv r r') :
    Tracking code sent r' := by
  cases hm with
  | timers t cbs naks hsame => exact h.of_eq rfl rfl rfl hsame
  | stay => exact h
  | unreported t hw hsame => exact h.of_eq rfl rfl rfl hsame
  | reported t naks hw hsame => exact h.of_eq rfl rfl rfl hsame
  | advance t hw hsame =>
    have hlt := h.written_lt hk hrx hw
    exact Tracking.advance (r := { r with rxBlocks := t }) (h.of_eq rfl rfl rfl hsame) hrx.next hlt
  | _ => exact h.of_eq rfl rfl rfl .rfl

/-- Every step keeps track of the highest block received. -/
theorem tracking_stable (hv : ∀ x, (lc.side x).Valid n) :
    RxStable rs lc code Tracked (Tracking code) where
  init := tracking_init
  history hpre h := h.extend hpre
  launch h := h.of_eq rfl rfl rfl .rfl
  start y h := h.start hv y
  move hrx h hm := h.move (hv .left).one_le hrx hm
  recv _ hrx h hp ht := h.recv hrx hp ht

end Tracking

end TcpPep
