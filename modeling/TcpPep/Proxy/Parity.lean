import TcpPep.Proxy.Sequence

/-!
The adaptive parity count.

A receiver reports each block's losses once (LQR). The sender lowers `curM` by one after
five clean reports in a row, raises it at once to one more than the losses, and sets the
shaper's burst to the block size that results. A report counts only while its
group is outstanding in `txBlocks`.

* `Sender.Control`: the three things a step can do to the controller: nothing, list a block
  that is flushed, or take in an LQR;
* `Sender.handleLQR_clean`, `Sender.handleLQR_lossy`: what an LQR for an outstanding group does;
* `Controls.Tuned`: bounds, and the shaper's parameters as a function of `curM`;
* `parity_controller`: the invariant over every run, and the closed form for any number of
  clean reports.
-/

namespace TcpPep

open Protocol Fec FiniteMap Events

/-! ## What a step does to the controller -/

/-- The controller, the list of blocks and the shaper's parameters. -/
structure Controls where
  curM : Nat
  consecutiveOk : Nat
  txBlocks : Table UInt16 TxBlock
  nextGroupID : UInt16
  sent : List Block
  burstSize : Nat
  burstInterval : Int

namespace Sender

def controls (s : Sender) : Controls :=
  { curM := s.curM
    consecutiveOk := s.consecutiveOk
    txBlocks := s.txBlocks
    nextGroupID := s.nextGroupID
    sent := s.sent
    burstSize := s.shaper.burstSize
    burstInterval := s.shaper.burstInterval }

/-- What a step can do to the controller. -/
inductive Control (rs : ReedSolomon) (cfg : Config) (s : Sender) (e : SessionEvent) (s' : Sender) :
    Prop
  | same (h : s'.controls = s.controls)
  | flush (t : Sender) (hne : t.pendingData ≠ []) (ht : t.controls = s.controls)
      (h : s'.controls = (t.flushPendingBlockLocked rs cfg).controls)
  | lqr (p : Packet) (he : e = .recv p) (ht : p.type = .lqr) (h : s' = s.handleLQR cfg p)

variable {rs : ReedSolomon} {cfg : Config} {s s' : Sender}

theorem Control.of_flush (t : Sender) (ht : t.controls = s.controls) {e : SessionEvent}
    (h : s'.controls = (t.flushPendingBlockLocked rs cfg).controls) : Control rs cfg s e s' := by
  by_cases hne : t.pendingData = []
  · rw [flush_of_empty hne] at h
    exact .same (h.trans ht)
  · exact .flush t hne ht h

theorem Stepped.control {done : Bool} {e : TxEvent} {eff : Effect Sender}
    (h : Stepped rs cfg done s e eff) (ev : SessionEvent) : Control rs cfg s ev eff.state := by
  cases h with
  | read data hr hne hle =>
    obtain ⟨timer, loose, heq⟩ := readTCP_eq rs cfg s data
    rw [heq]
    split
    · exact .same rfl
    · refine .of_flush (s.append data .unset loose) ?_ ?_ <;> rfl
  | finFlush hr hd => exact .of_flush s rfl rfl
  | timerRun hc => refine .of_flush { s with callbacks := s.callbacks - 1 } ?_ ?_ <;> rfl
  | shaper e shaper run out hrun =>
    obtain ⟨hsize, hinterval⟩ := (Shaper.ran_of_runStep hrun).params
    exact .same (by simp [controls, hsize, hinterval])
  | _ => exact .same rfl

theorem Control.close (s' : Session) {e : SessionEvent} (h : Control rs cfg s e s'.tx)
    (hne : ∀ p, e ≠ .recv p) : Control rs cfg s e s'.close.tx := by
  cases h with
  | same h => exact .same h
  | flush t hne ht h => exact .flush t hne ht h
  | lqr p he => exact absurd he (hne p)

end Sender

section Step

variable {rs : ReedSolomon} {cfg : Config} {s s' : Session} {e : SessionEvent} {out : List Bytes}

/-- Handlers other than `HandleLQR` do not touch the controller. -/
theorem Session.handle_controls {p : Packet} (ht : p.type ≠ .lqr) :
    (s.handle rs cfg p).tx.controls = s.tx.controls := by
  unfold Session.handle
  split
  · rfl
  · split <;> rfl
  · rename_i hlqr
    exact absurd hlqr ht
  · rfl
  · rfl
  · rfl

theorem Shaper.foldl_enqueue_params (pkts : List Bytes) (sh : Shaper) :
    (pkts.foldl Shaper.enqueue sh).burstSize = sh.burstSize ∧
      (pkts.foldl Shaper.enqueue sh).burstInterval = sh.burstInterval := by
  induction pkts generalizing sh with
  | nil => exact ⟨rfl, rfl⟩
  | cons pkt pkts ih =>
    have hone : (sh.enqueue pkt).burstSize = sh.burstSize ∧
        (sh.enqueue pkt).burstInterval = sh.burstInterval := by
      unfold Shaper.enqueue
      split <;> exact ⟨rfl, rfl⟩
    obtain ⟨hsize, hinterval⟩ := ih (sh.enqueue pkt)
    exact ⟨hsize.trans hone.1, hinterval.trans hone.2⟩

theorem Session.finishHandler_controls : s.finishHandler.tx.controls = s.tx.controls := by
  unfold Session.finishHandler
  split
  · rfl
  · rename_i p _
    obtain ⟨hsize, hinterval⟩ := Shaper.foldl_enqueue_params (sendPacketDirect p) s.tx.shaper
    simp [Sender.controls, hsize, hinterval]
  · dsimp only
    split <;> rfl

theorem Session.step_control (hs : s.step rs cfg e = some (s', out)) :
    Sender.Control rs cfg s.tx e s'.tx := by
  cases stepped_of_step hs with
  | tx e eff hl hclose heff => exact heff.control _
  | txClose e eff hl hclose heff =>
    exact Sender.Control.close { s with tx := eff.state } (heff.control _) (by simp)
  | recv p hd =>
    by_cases ht : p.type = .lqr
    · refine .lqr p rfl ht ?_
      unfold Session.handle
      rw [ht]
    · exact .same (handle_controls ht)
  | finishHandler hd => exact .same finishHandler_controls
  | _ => exact .same rfl

end Step

/-! ## What an LQR does -/

/-- The controller between two steps. -/
structure Controls.Tuned (cfg : Config) (c : Controls) : Prop where
  bound : c.curM ≤ cfg.fecM
  streak : c.consecutiveOk ≤ 4
  size : c.burstSize = cfg.fecK + c.curM
  interval : c.burstInterval = TcpPep.burstInterval cfg (cfg.fecK + c.curM)
  unreported : ∀ g block, c.txBlocks.lookup g = some block → block.lqrRecved = false

namespace Sender

variable {rs : ReedSolomon} {cfg : Config} {s : Sender} {p : Packet}

theorem tuned_new (cfg : Config) : (newSender cfg).controls.Tuned cfg where
  bound := Nat.le_refl _
  streak := Nat.zero_le _
  size := rfl
  interval := rfl
  unreported := by simp [controls, newSender]

theorem handleLQR_unlisted (h : s.txBlocks.lookup p.groupID = none) : s.handleLQR cfg p = s := by
  simp [handleLQR, h]

theorem handleLQR_clean (h : s.controls.Tuned cfg) {block : TxBlock}
    (hb : s.txBlocks.lookup p.groupID = some block) (hl : p.losses = 0) :
    (s.handleLQR cfg p).controls =
      { s.controls with
        curM := s.curM - (s.consecutiveOk + 1) / 5
        consecutiveOk := (s.consecutiveOk + 1) % 5
        txBlocks := s.txBlocks.erase p.groupID
        burstSize := cfg.fecK + (s.curM - (s.consecutiveOk + 1) / 5)
        burstInterval := burstInterval cfg (cfg.fecK + (s.curM - (s.consecutiveOk + 1) / 5)) } := by
  have hstreak : s.consecutiveOk ≤ 4 := h.streak
  have hsize : s.shaper.burstSize = cfg.fecK + s.curM := h.size
  have hinterval : s.shaper.burstInterval = burstInterval cfg (cfg.fecK + s.curM) := h.interval
  simp only [handleLQR, hb, h.unreported _ _ hb, hl, Bool.false_eq_true, ↓reduceIte]
  by_cases hfive : s.consecutiveOk + 1 ≥ 5
  · have hdiv : (s.consecutiveOk + 1) / 5 = 1 := by omega
    have hmod : (s.consecutiveOk + 1) % 5 = 0 := by omega
    rw [if_pos hfive, hdiv, hmod]
    by_cases hpos : s.curM > 0
    · rw [if_pos hpos]
      rfl
    · have hzero : s.curM = 0 := by omega
      rw [if_neg hpos]
      simp [controls, hsize, hinterval, hzero]
  · have hdiv : (s.consecutiveOk + 1) / 5 = 0 := by omega
    have hmod : (s.consecutiveOk + 1) % 5 = s.consecutiveOk + 1 := by omega
    rw [if_neg hfive, hdiv, hmod]
    simp [controls, hsize, hinterval]

theorem handleLQR_lossy (h : s.controls.Tuned cfg) {block : TxBlock}
    (hb : s.txBlocks.lookup p.groupID = some block) (hl : p.losses ≠ 0) :
    (s.handleLQR cfg p).controls =
      { s.controls with
        curM := max s.curM (min (p.losses.toNat + 1) cfg.fecM)
        consecutiveOk := 0
        txBlocks := s.txBlocks.erase p.groupID
        burstSize := cfg.fecK + max s.curM (min (p.losses.toNat + 1) cfg.fecM)
        burstInterval :=
          burstInterval cfg (cfg.fecK + max s.curM (min (p.losses.toNat + 1) cfg.fecM)) } := by
  have hsize : s.shaper.burstSize = cfg.fecK + s.curM := h.size
  have hinterval : s.shaper.burstInterval = burstInterval cfg (cfg.fecK + s.curM) := h.interval
  simp only [handleLQR, hb, h.unreported _ _ hb, hl, Bool.false_eq_true, ↓reduceIte]
  have hnew : (if p.losses.toNat + 1 > cfg.fecM then cfg.fecM else p.losses.toNat + 1) =
      min (p.losses.toNat + 1) cfg.fecM := by
    split <;> omega
  rw [hnew]
  by_cases hlt : s.curM < min (p.losses.toNat + 1) cfg.fecM
  · rw [if_pos hlt, Nat.max_eq_right (by omega)]
    rfl
  · rw [if_neg hlt, Nat.max_eq_left (by omega)]
    simp [controls, hsize, hinterval]

/-- A flush lists its block at most. -/
theorem flush_controls (hne : s.pendingData ≠ []) :
    ∃ txBlocks, (s.flushPendingBlockLocked rs cfg).controls =
        { s.controls with
          txBlocks, nextGroupID := s.nextGroupID + 1, sent := s.sent ++ [s.nextBlock rs cfg] } ∧
      (txBlocks = s.txBlocks ∧ (s.nextBlock rs cfg).parity = none ∨
        txBlocks = (eraseAll s.txBlocks (s.txBlocks.keys.filter (stale s.nextGroupID))).insert
          s.nextGroupID { groupID := s.nextGroupID, m := s.curM }) := by
  cases henc : Fec.encode rs cfg.fecK s.curM (s.paddedPending cfg) with
  | none =>
    rw [flush_fail hne henc]
    exact ⟨_, rfl, Or.inl ⟨rfl, henc⟩⟩
  | some parityShards =>
    have hparams : (s.shaper.enqueueMany (s.nextDatagrams rs cfg)).burstSize = s.shaper.burstSize ∧
        (s.shaper.enqueueMany (s.nextDatagrams rs cfg)).burstInterval = s.shaper.burstInterval := by
      unfold Shaper.enqueueMany
      split <;> exact ⟨rfl, rfl⟩
    rw [flush_eq hne henc]
    exact ⟨_, by simp [controls, hparams], Or.inr rfl⟩

theorem Control.tuned {e : SessionEvent} {s' : Sender} (hc : Control rs cfg s e s')
    (h : s.controls.Tuned cfg) :
    s'.controls.Tuned cfg := by
  cases hc with
  | same heq => rwa [heq]
  | flush t hne ht heq =>
    obtain ⟨txBlocks, hflush, hlist⟩ := flush_controls hne
    rw [← ht] at h
    rw [heq, hflush]
    refine ⟨h.bound, h.streak, h.size, h.interval, ?_⟩
    rcases hlist with ⟨rfl, -⟩ | rfl
    · exact h.unreported
    · intro g block hb
      rw [lookup_insert_eq] at hb
      split at hb
      · cases hb
        rfl
      · rw [lookup_eraseAll, Option.ite_none_left_eq_some] at hb
        exact h.unreported g block hb.2
  | lqr p he ht heq =>
    rw [heq]
    cases hb : s.txBlocks.lookup p.groupID with
    | none => rwa [handleLQR_unlisted hb]
    | some block =>
      have herase : ∀ g block, (s.txBlocks.erase p.groupID).lookup g = some block →
          block.lqrRecved = false := by
        intro g block hg
        rw [lookup_erase_eq, Option.ite_none_left_eq_some] at hg
        exact h.unreported g block hg.2
      have hbound : s.curM ≤ cfg.fecM := h.bound
      by_cases hl : p.losses = 0
      · rw [handleLQR_clean h hb hl]
        exact ⟨Nat.le_trans (Nat.sub_le _ _) hbound, Nat.le_of_lt_succ (Nat.mod_lt _ (by decide)),
          rfl, rfl, herase⟩
      · rw [handleLQR_lossy h hb hl]
        exact ⟨Nat.max_le.mpr ⟨hbound, Nat.min_le_right _ _⟩, Nat.zero_le _, rfl, rfl, herase⟩

end Sender

theorem tuned_of_reach {rs : ReedSolomon} {cfg : Config} {ok : Session → SessionEvent → Prop}
    {s : Session} (hr : Reach (session rs cfg) ok s) : s.tx.controls.Tuned cfg :=
  session_run (I := fun s => s.tx.controls.Tuned cfg) (Sender.tuned_new cfg)
    (fun _ _ _ _ h _ hs => (Session.step_control hs).tuned h) hr

/-! ## Over a run -/

/-- An LQR for a group that is outstanding. -/
def Effective (s : Session) : SessionEvent → Prop
  | .recv p => p.type = .lqr ∧ s.tx.txBlocks.lookup p.groupID ≠ none
  | _ => False

instance (s : Session) (e : SessionEvent) : Decidable (Effective s e) :=
  match e with
  | .recv p => inferInstanceAs (Decidable (p.type = .lqr ∧ s.tx.txBlocks.lookup p.groupID ≠ none))
  | .launch | .start | .tx _ | .rx _ | .finishHandler | .cancel => .isFalse id

/-- A run all of whose effective LQRs are clean, and how many there are. -/
inductive CleanRun (rs : ReedSolomon) (cfg : Config) (s : Session) : Nat → Session → Prop
  | refl : CleanRun rs cfg s 0 s
  | other {n : Nat} {s₁ s₂ : Session} {e : SessionEvent} (hrun : CleanRun rs cfg s n s₁)
      (he : ¬ Effective s₁ e) (hs : (session rs cfg).step s₁ e = some s₂) : CleanRun rs cfg s n s₂
  | clean {n : Nat} {s₁ s₂ : Session} {p : Packet} (hrun : CleanRun rs cfg s n s₁)
      (he : Effective s₁ (.recv p)) (hl : p.losses = 0)
      (hs : (session rs cfg).step s₁ (.recv p) = some s₂) : CleanRun rs cfg s (n + 1) s₂

section Run

variable {rs : ReedSolomon} {cfg : Config} {s s' : Session} {e : SessionEvent} {out : List Bytes}

/-- Without an effective LQR the controller stays as it is. -/
theorem Session.step_ineffective (hs : s.step rs cfg e = some (s', out)) (he : ¬ Effective s e) :
    s'.tx.curM = s.tx.curM ∧ s'.tx.consecutiveOk = s.tx.consecutiveOk ∧
      s'.tx.shaper.burstSize = s.tx.shaper.burstSize ∧
      s'.tx.shaper.burstInterval = s.tx.shaper.burstInterval := by
  have hview : ∀ {c : Controls}, s'.tx.controls = c → c.curM = s.tx.curM →
      c.consecutiveOk = s.tx.consecutiveOk → c.burstSize = s.tx.shaper.burstSize →
      c.burstInterval = s.tx.shaper.burstInterval →
      s'.tx.curM = s.tx.curM ∧ s'.tx.consecutiveOk = s.tx.consecutiveOk ∧
        s'.tx.shaper.burstSize = s.tx.shaper.burstSize ∧
        s'.tx.shaper.burstInterval = s.tx.shaper.burstInterval := by
    rintro c rfl hm hok hsize hinterval
    exact ⟨hm, hok, hsize, hinterval⟩
  cases Session.step_control hs with
  | same heq => exact hview heq rfl rfl rfl rfl
  | flush t hne ht heq =>
    obtain ⟨txBlocks, hflush, -⟩ := @Sender.flush_controls rs cfg t hne
    exact hview (heq.trans hflush) (congrArg Controls.curM ht) (congrArg Controls.consecutiveOk ht)
      (congrArg Controls.burstSize ht) (congrArg Controls.burstInterval ht)
  | lqr p hep ht heq =>
    subst hep
    have hnone : s.tx.txBlocks.lookup p.groupID = none := by
      by_contra hne
      exact he ⟨ht, hne⟩
    rw [heq, Sender.handleLQR_unlisted hnone]
    exact ⟨rfl, rfl, rfl, rfl⟩

theorem Session.step_effective {p : Packet} (hs : s.step rs cfg (.recv p) = some (s', out))
    (he : Effective s (.recv p)) :
    s'.tx = s.tx.handleLQR cfg p ∧ ∃ block, s.tx.txBlocks.lookup p.groupID = some block := by
  obtain ⟨ht, hne⟩ := he
  refine ⟨?_, Option.ne_none_iff_exists'.mp hne⟩
  cases stepped_of_step hs with
  | recv p hd =>
    unfold Session.handle
    rw [ht]

/-- What a run of clean LQRs does, in one formula. -/
theorem CleanRun.closed_form {n : Nat} (h : CleanRun rs cfg s n s') (ht : s.tx.controls.Tuned cfg) :
    s'.tx.controls.Tuned cfg ∧ s'.tx.curM = s.tx.curM - (s.tx.consecutiveOk + n) / 5 ∧
      s'.tx.consecutiveOk = (s.tx.consecutiveOk + n) % 5 := by
  -- the counter and the floor at 0 go together: a quotient and its remainder
  induction h with
  | refl =>
    have hstreak : s.tx.consecutiveOk ≤ 4 := ht.streak
    exact ⟨ht, by omega, by omega⟩
  | other hrun he hs ih =>
    obtain ⟨⟨_, out⟩, hstep, rfl⟩ := Option.map_eq_some_iff.mp hs
    obtain ⟨htuned, hm, hok⟩ := ih
    obtain ⟨hm', hok', -⟩ := Session.step_ineffective hstep he
    exact ⟨(Session.step_control hstep).tuned htuned, hm'.trans hm, hok'.trans hok⟩
  | clean hrun he hl hs ih =>
    obtain ⟨⟨_, out⟩, hstep, rfl⟩ := Option.map_eq_some_iff.mp hs
    obtain ⟨htuned, hm, hok⟩ := ih
    obtain ⟨heq, block, hb⟩ := Session.step_effective hstep he
    have hcontrols := Sender.handleLQR_clean htuned hb hl
    rw [← heq] at hcontrols
    have hm' := congrArg Controls.curM hcontrols
    have hok' := congrArg Controls.consecutiveOk hcontrols
    simp only [Sender.controls] at hm' hok'
    refine ⟨(Session.step_control hstep).tuned htuned, ?_, ?_⟩
    · rw [hm', hm, hok]
      omega
    · rw [hok', hok]
      omega

end Run

/-- **The parity controller.** In every state of every run, whatever LQRs arrive: `curM` is at most
`FEC_M`, the count of clean reports at most 4, and the shaper's burst is that of `K + curM`
packets. Only an LQR for an outstanding group changes any of them. After `n` clean ones in a
row, with anything else in between, `curM` has gone down by one for every five, not below 0; one
with losses raises it to one more than these, within `FEC_M`, and starts the count again. -/
theorem parity_controller {rs : ReedSolomon} {cfg : Config} {s : Session}
    (hr : Reach (session rs cfg) (fun _ _ => True) s) :
    (s.tx.curM ≤ cfg.fecM ∧ s.tx.consecutiveOk ≤ 4 ∧ s.tx.shaper.burstSize = cfg.fecK + s.tx.curM ∧
      s.tx.shaper.burstInterval = burstInterval cfg (cfg.fecK + s.tx.curM)) ∧
    (∀ e s', (session rs cfg).step s e = some s' → ¬ Effective s e →
      s'.tx.curM = s.tx.curM ∧ s'.tx.consecutiveOk = s.tx.consecutiveOk ∧
        s'.tx.shaper.burstSize = s.tx.shaper.burstSize ∧
        s'.tx.shaper.burstInterval = s.tx.shaper.burstInterval) ∧
    (∀ n s', CleanRun rs cfg s n s' →
      s'.tx.curM = s.tx.curM - min s.tx.curM ((s.tx.consecutiveOk + n) / 5) ∧
        s'.tx.consecutiveOk = (s.tx.consecutiveOk + n) % 5) ∧
    ∀ (p : Packet) s', (session rs cfg).step s (.recv p) = some s' → Effective s (.recv p) →
      1 ≤ p.losses → s'.tx.curM = max s.tx.curM (min (p.losses.toNat + 1) cfg.fecM) ∧
      s'.tx.consecutiveOk = 0 := by
  have h := tuned_of_reach hr
  refine ⟨⟨h.bound, h.streak, h.size, h.interval⟩, ?_, ?_, ?_⟩
  · intro e s' hs he
    obtain ⟨⟨_, out⟩, hstep, rfl⟩ := Option.map_eq_some_iff.mp hs
    exact Session.step_ineffective hstep he
  · intro n s' hrun
    obtain ⟨-, hm, hok⟩ := hrun.closed_form h
    exact ⟨by omega, hok⟩
  · intro p s' hs he hl
    obtain ⟨⟨_, out⟩, hstep, rfl⟩ := Option.map_eq_some_iff.mp hs
    obtain ⟨heq, block, hb⟩ := Session.step_effective hstep he
    have hne : p.losses ≠ 0 := by
      rintro hzero
      rw [hzero] at hl
      exact absurd hl (by decide)
    have hcontrols := Sender.handleLQR_lossy h hb hne
    rw [← heq] at hcontrols
    exact ⟨congrArg Controls.curM hcontrols, congrArg Controls.consecutiveOk hcontrols⟩

/-- Two reads fill a block of two shards, and `Run` takes what is queued. -/
def flushBlock : List SessionEvent :=
  [.tx .check, .tx (.read [7]), .tx .check, .tx (.read [9]), .tx (.shaper .poll),
    .tx (.shaper .take), .tx (.shaper .send), .tx (.shaper .send), .tx (.shaper .send),
    .tx (.shaper .send)]

/-- The LQR of group `g` without losses. -/
def cleanReport (g : UInt16) : SessionEvent := .recv { type := .lqr, streamID := 1, groupID := g }

/-- Five blocks are out and four of them reported clean: the fifth report lowers `curM` from 1 to 0.
-/
theorem parity_controller_small :
    ∃ s s', Reach (session reedSolomonTwoOne smallConfig) (fun _ _ => True) s ∧
      (session reedSolomonTwoOne smallConfig).step s (cleanReport 4) = some s' ∧
      s.tx.curM = 1 ∧ s.tx.consecutiveOk = 4 ∧ s'.tx.curM = 0 ∧ s'.tx.consecutiveOk = 0 := by
  obtain ⟨s, s', hr, hs, hm, hok, he⟩ : ∃ s s',
      Reach (session reedSolomonTwoOne smallConfig) (fun _ _ => True) s ∧
      (session reedSolomonTwoOne smallConfig).step s (cleanReport 4) = some s' ∧
      s.tx.curM = 1 ∧ s.tx.consecutiveOk = 4 ∧ Effective s (cleanReport 4) :=
    Reach.exists_step_of_runOk _ ([.launch] ++ flushBlock ++ [cleanReport 0] ++ flushBlock ++
      [cleanReport 1] ++ flushBlock ++ flushBlock ++ [cleanReport 3, cleanReport 3] ++ flushBlock ++
      [cleanReport 2]) _ (by decide +kernel)
  obtain ⟨-, -, hclean, -⟩ := parity_controller hr
  obtain ⟨hm', hok'⟩ := hclean 1 s' (.clean .refl he rfl hs)
  rw [hm, hok] at hm'
  rw [hok] at hok'
  exact ⟨s, s', hr, hs, hm, hok, hm', hok'⟩

end TcpPep
