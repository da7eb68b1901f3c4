import TcpPep.Proxy.Link

/-!
The receive window.

`HandleDataPacket` opens a group only if it is not behind the writer by less than
half a turn, and the writer removes the groups it passes. So every group of
`rxBlocks` lies at most half a turn in front of the writer, whatever packets come.
The group-0 block of `Start` is the exception: it is put in without a look at
the writer.

* `session`, `session_run`: one session, with arbitrary packets;
* `Receiver.Windowed`: every open group is in the window;
* `receive_window`: the invariant, exactly as long as `Start` does not open group 0 behind the
  writer, and what it means for a group that has been written;
* `start_behind_writer`: group 0 is opened again after it has been written.
-/

namespace TcpPep

open Protocol Fec FiniteMap Events

/-- The machine of one session. -/
def session (rs : ReedSolomon) (cfg : Config) : Machine Session SessionEvent where
  init := newSession cfg
  step s e := (s.step rs cfg e).map Prod.fst

/-- **Rule for one session.** What every step keeps under the side condition holds along every run.
-/
theorem session_run {rs : ReedSolomon} {cfg : Config} {ok : Session → SessionEvent → Prop}
    {I : Session → Prop} {s s' : Session} (hinit : I s) (hstep : ∀ s e s' out, I s → ok s e →
      s.step rs cfg e = some (s', out) → I s')
    (hr : Reach { session rs cfg with init := s } ok s') : I s' := by
  induction hr with
  | init => exact hinit
  | step _ hok hs ih =>
    obtain ⟨⟨_, out⟩, hs', rfl⟩ := Option.map_eq_some_iff.mp hs
    exact hstep _ _ _ _ ih hok hs'

/-- At most half a turn in front of the writer. -/
def Receiver.InWindow (r : Receiver) (g : UInt16) : Prop := g - r.nextWriteGrp ≤ 32768

instance (r : Receiver) (g : UInt16) : Decidable (r.InWindow g) :=
  inferInstanceAs (Decidable (g - r.nextWriteGrp ≤ 32768))

def Receiver.Windowed (r : Receiver) : Prop := ∀ g b, r.rxBlocks.lookup g = some b → r.InWindow g

/-- When `Start` finds no group, group 0 is not behind the writer. -/
def StartsInWindow (s : Session) : SessionEvent → Prop
  | .start => isEmpty s.rx.rxBlocks = true → s.rx.InWindow 0
  | _ => True

instance (s : Session) (e : SessionEvent) : Decidable (StartsInWindow s e) := by
  unfold StartsInWindow
  split <;> infer_instance

/-! ## Distances on the circle -/

theorem inWindow_of_not_after {n g : UInt16} (h : after n g = false) : g - n ≤ 32768 := by
  have hn := n.toNat_lt
  have hg := g.toNat_lt
  simp only [after, gt_iff_lt, UInt16.lt_iff_toNat_lt, UInt16.toNat_sub, Bool.and_eq_false_iff,
    decide_eq_false_iff_not] at h
  rw [UInt16.le_iff_toNat_le, UInt16.toNat_sub]
  simp only [UInt16.toNat_ofNat] at h ⊢
  omega

/-- A group in the window that the writer has not reached stays in it. -/
theorem inWindow_succ {n g : UInt16} (hne : g ≠ n) (h : g - n ≤ 32768) : g - (n + 1) ≤ 32768 := by
  have hn := n.toNat_lt
  have hg := g.toNat_lt
  have hne' : g.toNat ≠ n.toNat := fun heq => hne (UInt16.toNat_inj.mp heq)
  rw [UInt16.le_iff_toNat_le, UInt16.toNat_sub] at h ⊢
  rw [UInt16.toNat_add]
  simp only [UInt16.toNat_ofNat] at h ⊢
  omega

/-- A group that the writer has passed, by less than half a turn, is not in the window. -/
theorem not_inWindow_of_written {j written : Nat} (hlt : j < written) (hle : written ≤ j + 32767) :
    ¬ UInt16.ofNat j - UInt16.ofNat written ≤ 32768 := by
  rw [UInt16.le_iff_toNat_le, UInt16.toNat_sub, UInt16.toNat_ofNat', UInt16.toNat_ofNat']
  simp only [UInt16.toNat_ofNat]
  omega

/-! ## The window over a run -/

section Window

variable {rs : ReedSolomon} {cfg : Config} {r r' : Receiver} {s s' : Session} {e : SessionEvent}
  {out : List Bytes}

/-- The writer stays where it is, or goes on by one group. -/
theorem Session.step_writer (hs : s.step rs cfg e = some (s', out)) :
    s'.rx.nextWriteGrp = s.rx.nextWriteGrp ∧ s'.rx.written = s.rx.written ∨
      s'.rx.nextWriteGrp = s.rx.nextWriteGrp + 1 ∧ s'.rx.written = s.rx.written + 1 := by
  have hchange := (Session.step_rxChange hs).1
  generalize s'.rx = r' at hchange ⊢
  cases hchange with
  | same => exact Or.inl ⟨rfl, rfl⟩
  | launch hl => exact Or.inl ⟨rfl, rfl⟩
  | start hl =>
    left
    unfold Receiver.startInit
    split <;> exact ⟨rfl, rfl⟩
  | step ev eff heff =>
    have hm := Receiver.step_move heff
    generalize eff.state = r' at hm ⊢
    cases hm with
    | advance t hw hsame => exact Or.inr ⟨rfl, rfl⟩
    | _ => exact Or.inl ⟨rfl, rfl⟩
  | data p ht =>
    left
    obtain ⟨top, has, hnote⟩ := s.rx.noteGroup_eq p.groupID
    have hi := Receiver.handleDataPacket_intake rs cfg s.rx p
    generalize s.rx.handleDataPacket rs cfg p = r' at hi ⊢
    cases hi with
    | closed hclosed => exact ⟨rfl, rfl⟩
    | old hold => rw [hnote]; exact ⟨rfl, rfl⟩
    | take hnew => rw [hnote]; exact ⟨rfl, rfl⟩

theorem Session.step_counted (h : s.rx.nextWriteGrp = UInt16.ofNat s.rx.written)
    (hs : s.step rs cfg e = some (s', out)) : s'.rx.nextWriteGrp = UInt16.ofNat s'.rx.written := by
  rcases Session.step_writer hs with ⟨hn, hw⟩ | ⟨hn, hw⟩
  · rw [hn, hw, h]
  · rw [hn, hw, h, UInt16.ofNat_add]
    rfl

theorem Session.written_le (hs : s.step rs cfg e = some (s', out)) :
    s.rx.written ≤ s'.rx.written := by
  rcases Session.step_writer hs with ⟨-, hw⟩ | ⟨-, hw⟩ <;> omega

theorem SameCores.exists_lookup {t t' : Table UInt16 RxBlock} (h : SameCores t t') {g : UInt16}
    {b' : RxBlock} (hb' : t'.lookup g = some b') : ∃ b, t.lookup g = some b := by
  obtain ⟨b, hb, -⟩ := h.lookup hb'
  exact ⟨b, hb⟩

/-- The window depends on the open groups and on the writer's counter. -/
theorem Receiver.Windowed.of_same (h : r.Windowed) (hnext : r'.nextWriteGrp = r.nextWriteGrp)
    (hsame : SameCores r.rxBlocks r'.rxBlocks) : r'.Windowed := by
  intro g b' hb'
  obtain ⟨b, hb⟩ := hsame.exists_lookup hb'
  rw [Receiver.InWindow, hnext]
  exact h g b hb

theorem Receiver.Windowed.move {done closeRecv : Bool} (h : r.Windowed)
    (hm : Receiver.Move done closeRecv r r') :
    r'.Windowed := by
  cases hm with
  | timers t cbs naks hsame => exact h.of_same rfl hsame
  | unreported t hw hsame => exact h.of_same rfl hsame
  | reported t naks hw hsame => exact h.of_same rfl hsame
  | advance t hw hsame =>
    -- the group the writer was at is gone, every other one was strictly in front of it
    intro g b' hb'
    simp only [Receiver.advance, lookup_erase_eq, Option.ite_none_left_eq_some] at hb'
    obtain ⟨hne, hb'⟩ := hb'
    obtain ⟨b, hb⟩ := hsame.exists_lookup hb'
    exact inWindow_succ hne (h g b hb)
  | _ => exact h.of_same rfl .rfl

theorem Receiver.Windowed.intake {p : Packet} (h : r.Windowed)
    (hi : Receiver.Intake rs cfg r p r') :
    r'.Windowed := by
  obtain ⟨top, has, hnote⟩ := r.noteGroup_eq p.groupID
  cases hi with
  | closed hclosed => exact h
  | old hold =>
    rw [hnote]
    exact h.of_same rfl .rfl
  | take hnew =>
    rw [hnote]
    intro g b hb
    simp only [lookup_insert_eq] at hb
    split at hb
    · rename_i hg
      subst hg
      exact inWindow_of_not_after hnew
    · exact h g b hb

/-- `Start` keeps the invariant exactly if it does not open group 0 behind the writer. -/
theorem Receiver.Windowed.start_iff (h : r.Windowed) :
    (Receiver.startInit cfg r).Windowed ↔ (isEmpty r.rxBlocks = true → r.InWindow 0) := by
  unfold Receiver.startInit
  split
  · rename_i hempty
    constructor
    · intro hw _
      exact hw 0 (startRxBlock cfg) (by simp)
    · intro hzero g b hb
      simp only [lookup_insert_eq] at hb
      split at hb
      · rename_i hg
        subst hg
        exact hzero hempty
      · exact h g b hb
  · rename_i hne
    exact ⟨fun _ hempty => absurd hempty hne, fun _ => h⟩

theorem Receiver.Windowed.step_iff (h : s.rx.Windowed) (hs : s.step rs cfg e = some (s', out)) :
    s'.rx.Windowed ↔ StartsInWindow s e := by
  by_cases hstart : e = .start
  · subst hstart
    simp only [Session.step, Option.ite_none_right_eq_some, Option.some.injEq, Prod.mk.injEq] at hs
    obtain ⟨-, rfl, rfl⟩ := hs
    exact h.start_iff
  · have hok : StartsInWindow s e := by
      cases e with
      | start => exact absurd rfl hstart
      | _ => trivial
    refine ⟨fun _ => hok, fun _ => ?_⟩
    have hchange := (Session.step_rxChange hs).1
    generalize s'.rx = r' at hchange ⊢
    cases hchange with
    | same => exact h
    | launch hl => exact h.of_same rfl .rfl
    | start hl => exact absurd rfl hstart
    | step ev eff heff => exact h.move (Receiver.step_move heff)
    | data p ht => exact h.intake (Receiver.handleDataPacket_intake rs cfg s.rx p)

/-- A group that has been written is not open, no timer or NAK check of it does anything, and
no packet opens it again. -/
structure Receiver.Closed (rs : ReedSolomon) (cfg : Config) (r : Receiver) (g : UInt16) : Prop where
  block : r.rxBlocks.lookup g = none
  lqrFire : ∀ done closeRecv, r.step cfg done closeRecv (.lqrFire g) = none
  lqrRun : ∀ done closeRecv eff, r.step cfg done closeRecv (.lqrRun g) = some eff →
    eff.out = [] ∧ eff.state = { r with lqrCallbacks := r.lqrCallbacks.erase g }
  nakRun : ∀ done closeRecv eff, r.step cfg done closeRecv (.nakRun g) = some eff →
    eff.out = [] ∧ eff.state = { r with nakChecks := r.nakChecks.erase g }
  recv : ∀ p : Packet, p.groupID = g → (r.handleDataPacket rs cfg p).rxBlocks = r.rxBlocks

theorem Receiver.Windowed.closed (h : r.Windowed) (hcount : r.nextWriteGrp = UInt16.ofNat r.written)
    {j : Nat} (hlt : j < r.written) (hle : r.written ≤ j + 32767) :
    r.Closed rs cfg (UInt16.ofNat j) := by
  have hout : ¬ r.InWindow (UInt16.ofNat j) := by
    rw [Receiver.InWindow, hcount]
    exact not_inWindow_of_written hlt hle
  have hnone : r.rxBlocks.lookup (UInt16.ofNat j) = none := by
    cases hb : r.rxBlocks.lookup (UInt16.ofNat j) with
    | none => rfl
    | some b => exact absurd (h _ b hb) hout
  refine ⟨hnone, ?_, ?_, ?_, ?_⟩
  · intro done closeRecv
    simp [Receiver.step, hnone]
  · intro done closeRecv eff heff
    simp only [Receiver.step, Receiver.handleLQRTimeout, hnone, Option.ite_none_right_eq_some,
      Option.some.injEq] at heff
    obtain ⟨-, rfl⟩ := heff
    exact ⟨rfl, rfl⟩
  · intro done closeRecv eff heff
    simp only [Receiver.step, Receiver.sendNakPeriodic, hnone, ite_self,
      Option.ite_none_right_eq_some, Option.some.injEq] at heff
    obtain ⟨-, rfl⟩ := heff
    exact ⟨rfl, rfl⟩
  · intro p hp
    obtain ⟨top, has, hnote⟩ := r.noteGroup_eq p.groupID
    have hi := Receiver.handleDataPacket_intake rs cfg r p
    generalize r.handleDataPacket rs cfg p = r' at hi ⊢
    cases hi with
    | closed hclosed => rfl
    | old hold => rw [hnote]
    | take hnew =>
      rw [hp] at hnew
      exact absurd (inWindow_of_not_after hnew) hout

end Window

/-- **The receive window.** Whatever packets arrive, and however the goroutines interleave: as long
as `Start` does not open group 0 behind the writer, every open group is at most half a
turn in front of the writer. A group that has been written has then nothing left behind
and is not opened again within 32767 groups. The step that breaks the condition breaks
the invariant. -/
theorem receive_window {rs : ReedSolomon} {cfg : Config} {s : Session}
    (hr : Reach (session rs cfg) StartsInWindow s) :
    (∀ g b, s.rx.rxBlocks.lookup g = some b → g - s.rx.nextWriteGrp ≤ 32768) ∧
    s.rx.nextWriteGrp = UInt16.ofNat s.rx.written ∧
    (∀ j, j < s.rx.written → s.rx.written ≤ j + 32767 → s.rx.Closed rs cfg (UInt16.ofNat j)) ∧
    ∀ e s', (session rs cfg).step s e = some s' →
      ((∀ g b, s'.rx.rxBlocks.lookup g = some b → g - s'.rx.nextWriteGrp ≤ 32768) ↔
        StartsInWindow s e) := by
  obtain ⟨h, hcount⟩ : s.rx.Windowed ∧ s.rx.nextWriteGrp = UInt16.ofNat s.rx.written := by
    refine session_run (I := fun s => s.rx.Windowed ∧
      s.rx.nextWriteGrp = UInt16.ofNat s.rx.written) ?_ ?_ hr
    · refine ⟨?_, rfl⟩
      intro g b hb
      simp [newSession] at hb
    · rintro s e s' out ⟨h, hcount⟩ hok hs
      exact ⟨(h.step_iff hs).mpr hok, Session.step_counted hcount hs⟩
  refine ⟨h, hcount, fun j => h.closed hcount, fun e s' hs => ?_⟩
  obtain ⟨⟨_, out⟩, hstep, rfl⟩ := Option.map_eq_some_iff.mp hs
  exact h.step_iff hstep

/-- The two data packets of group 0. -/
def groupZero : List SessionEvent :=
  [.recv { type := .data, streamID := 1, groupID := 0, idx := 0, payload := [0, 1, 7] },
    .recv { type := .data, streamID := 1, groupID := 0, idx := 1, payload := [0, 1, 9] }]

/-- The writer writes a block of two slots. -/
def writeGroup : List SessionEvent :=
  [.rx .wait, .rx .slot, .rx .slot, .rx .slot, .rx .cleanup, .rx .report, .rx .finish]

theorem receive_window_small :
    ∃ s, Reach (session reedSolomonTwoOne smallConfig) StartsInWindow s ∧
      s.rx.written = 1 ∧ s.rx.tcpOut = [7, 9] ∧ s.rx.Closed reedSolomonTwoOne smallConfig 0 := by
  obtain ⟨s, hr, hw, hout⟩ : ∃ s, Reach (session reedSolomonTwoOne smallConfig) StartsInWindow s ∧
      s.rx.written = 1 ∧ s.rx.tcpOut = [7, 9] :=
    Reach.exists_of_runOk _ ([.launch] ++ [.start] ++ groupZero ++ writeGroup) (by decide +kernel)
  exact ⟨s, hr, hw, hout, (receive_window hr).2.2.1 0 (by omega) (by omega)⟩

/-- **Group 0 opened again.** The packets of group 0 arrive and are written before `Start` has
taken `muRecv`. `Start` finds no group and opens group 0, one group behind the writer:
its LQR timer runs out, and its NAK check asks for both shards again and again. -/
theorem start_behind_writer :
    ∃ s, Reach (session reedSolomonTwoOne smallConfig) (fun _ _ => True) s ∧
      s.rx.nextWriteGrp = 1 ∧ s.rx.tcpOut = [7, 9] ∧
      (s.rx.rxBlocks.lookup 0).map RxBlock.decoded = some false ∧ 0 ∈ s.rx.nakChecks ∧
      ¬ (0 : UInt16) - s.rx.nextWriteGrp ≤ 32768 :=
  Reach.exists_of_runOk _ ([.launch] ++ groupZero ++ writeGroup ++ [.rx (.nakRun 0), .start,
    .rx (.lqrFire 0), .rx (.lqrRun 0), .rx (.nakRun 0), .rx (.nakRun 0)]) (by decide +kernel)

end TcpPep
