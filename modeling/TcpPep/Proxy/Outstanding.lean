import TcpPep.Proxy.Parity

/-!
The list of outstanding blocks.

A flush evicts the entries of `txBlocks` that are more than 100 and less than 60000
groups old, in the arithmetic of the 16-bit GroupID. An entry that reached an age of 60000 would
stay for good. None does while the flushes succeed: an entry grows older by one group a
flush, and the flush that makes it 101 groups old evicts it.

* `OnList`: every entry belongs to one of the last 101 blocks;
* `OnList.flush`: a flush keeps it so, across the wraparound of the GroupID;
* `outstanding_fresh`: what follows for the size of the list, for the entry of a reused GroupID
  and for the LQRs that count.
-/

namespace TcpPep

open Protocol Fec FiniteMap Events

/-- Every entry is that of one of the last 101 blocks of the history. -/
def OnList (sent : List Block) (txBlocks : Table UInt16 TxBlock) : Prop :=
  ∀ id block, txBlocks.lookup id = some block → ∃ b blk, sent[b]? = some blk ∧ id = UInt16.ofNat b ∧
    sent.length ≤ b + 101 ∧ block = { groupID := id, m := blk.m }

/-- The age of a GroupID is the number of blocks since it was used, below one turn. -/
theorem toNat_ofNat_sub {x y : Nat} (hle : y ≤ x) (hlt : x < y + 65536) :
    (UInt16.ofNat x - UInt16.ofNat y).toNat = x - y := by
  rw [UInt16.toNat_sub, UInt16.toNat_ofNat', UInt16.toNat_ofNat']
  omega

/-- The flush of block `b + 101` evicts block `b`. -/
theorem stale_ofNat (b : Nat) : stale (UInt16.ofNat (b + 101)) (UInt16.ofNat b) = true := by
  have hage := toNat_ofNat_sub (show b ≤ b + 101 by omega) (by omega)
  simp only [stale, Bool.and_eq_true, decide_eq_true_eq, gt_iff_lt, UInt16.lt_iff_toNat_lt, hage]
  constructor
  · show 100 < b + 101 - b
    omega
  · show b + 101 - b < 60000
    omega

section OnList

variable {sent : List Block} {txBlocks : Table UInt16 TxBlock}

theorem OnList.erase (h : OnList sent txBlocks) (g : UInt16) : OnList sent (txBlocks.erase g) := by
  intro id block hb
  rw [lookup_erase_eq, Option.ite_none_left_eq_some] at hb
  exact h id block hb.2

theorem OnList.flush (h : OnList sent txBlocks) (blk : Block) :
    OnList (sent ++ [blk])
      ((eraseAll txBlocks (txBlocks.keys.filter (stale (UInt16.ofNat sent.length)))).insert
        (UInt16.ofNat sent.length) { groupID := UInt16.ofNat sent.length, m := blk.m }) := by
  intro id block hb
  rw [lookup_insert_eq] at hb
  split at hb
  · rename_i hid
    subst hid
    cases hb
    exact ⟨sent.length, blk, by simp, rfl, by simp, rfl⟩
  · rw [lookup_eraseAll, Option.ite_none_left_eq_some] at hb
    obtain ⟨hkept, hb⟩ := hb
    obtain ⟨b, blk', hsent, rfl, hle, hblock⟩ := h id block hb
    have hlt : b < sent.length := (List.getElem?_eq_some_iff.mp hsent).1
    -- an entry that was 101 blocks old would have been evicted
    have hne : b + 101 ≠ sent.length := by
      intro hold
      apply hkept
      rw [List.mem_filter, ← AList.mem_keys, ← AList.lookup_isSome, hb, ← hold]
      exact ⟨rfl, stale_ofNat b⟩
    refine ⟨b, blk', ?_, rfl, ?_, hblock⟩
    · rw [List.getElem?_append_left hlt, hsent]
    · rw [List.length_append, List.length_singleton]
      omega

/-- The last 101 GroupIDs are all there is room for. -/
theorem OnList.length_le (h : OnList sent txBlocks) : txBlocks.keys.length ≤ 101 := by
  have hsub : txBlocks.keys ⊆ (List.range' (sent.length - 101) 101).map UInt16.ofNat := by
    intro id hid
    rw [← AList.mem_keys, ← AList.lookup_isSome] at hid
    obtain ⟨block, hb⟩ := Option.isSome_iff_exists.mp hid
    obtain ⟨b, blk, hsent, rfl, hle, -⟩ := h id block hb
    have hlt : b < sent.length := (List.getElem?_eq_some_iff.mp hsent).1
    exact List.mem_map.mpr ⟨b, List.mem_range'_1.mpr ⟨by omega, by omega⟩, rfl⟩
  have hlen := (List.subperm_of_subset txBlocks.keys_nodup hsub).length_le
  rwa [List.length_map, List.length_range'] at hlen

/-- The next GroupID is not listed: its last use is a turn ago. -/
theorem OnList.next (h : OnList sent txBlocks) :
    txBlocks.lookup (UInt16.ofNat sent.length) = none := by
  cases hb : txBlocks.lookup (UInt16.ofNat sent.length) with
  | none => rfl
  | some block =>
    obtain ⟨b, blk, hsent, hid, hle, -⟩ := h _ block hb
    have hlt : b < sent.length := (List.getElem?_eq_some_iff.mp hsent).1
    have hage := toNat_ofNat_sub (Nat.le_of_lt hlt) (by omega)
    rw [hid] at hage
    simp at hage
    omega

end OnList

/-! ## Over a run -/

section Run

variable {rs : ReedSolomon} {cfg : Config} {s s' : Session} {e : SessionEvent}

/-- The list of a session against its history, as long as no flush has failed. -/
def Controls.UpToDate (c : Controls) : Prop := Coded c.sent → OnList c.sent c.txBlocks

theorem Sender.Control.upToDate {s s' : Sender} (hc : Control rs cfg s e s')
    (hcount : s.Counted cfg) (htuned : s.controls.Tuned cfg) (h : s.controls.UpToDate) :
    s'.controls.UpToDate := by
  cases hc with
  | same heq => rwa [heq]
  | flush t hne ht heq =>
    obtain ⟨txBlocks, hflush, hlist⟩ := @flush_controls rs cfg t hne
    have hgroup : t.nextGroupID = UInt16.ofNat t.sent.length := by
      have hid := congrArg Controls.nextGroupID ht
      have hsent := congrArg Controls.sent ht
      simp only [controls] at hid hsent
      rw [hid, hsent, hcount.group]
    rw [← ht] at h
    rw [heq, hflush]
    intro hcoded
    have hold : Coded t.sent := fun blk hblk => hcoded blk (List.mem_append_left _ hblk)
    rcases hlist with ⟨-, hfail⟩ | rfl
    · exact absurd hfail (hcoded _ (by simp))
    · have honList : OnList t.sent t.txBlocks := h hold
      have hnew := honList.flush (t.nextBlock rs cfg)
      rw [← hgroup] at hnew
      exact hnew
  | lqr p he ht heq =>
    rw [heq]
    cases hb : s.txBlocks.lookup p.groupID with
    | none => rwa [handleLQR_unlisted hb]
    | some block =>
      intro hcoded
      by_cases hl : p.losses = 0
      · rw [handleLQR_clean htuned hb hl] at hcoded ⊢
        exact (h hcoded).erase p.groupID
      · rw [handleLQR_lossy htuned hb hl] at hcoded ⊢
        exact (h hcoded).erase p.groupID

theorem onList_of_reach {ok : Session → SessionEvent → Prop} (hr : Reach (session rs cfg) ok s)
    (hcoded : Coded s.tx.sent) : OnList s.tx.sent s.tx.txBlocks := by
  have h : s.tx.Counted cfg ∧ s.tx.controls.Tuned cfg ∧ s.tx.controls.UpToDate := by
    refine session_run (I := fun s => s.tx.Counted cfg ∧ s.tx.controls.Tuned cfg ∧
      s.tx.controls.UpToDate) ?_ ?_ hr
    · refine ⟨Sender.counted_new cfg, Sender.tuned_new cfg, ?_⟩
      intro _ id block hb
      simp [Sender.controls, newSession, newSender] at hb
    · rintro s e s' out ⟨hcount, htuned, hfresh⟩ _ hs
      have hc := Session.step_control hs
      exact ⟨hcount.turn (Session.step_turn hs), hc.tuned htuned, hc.upToDate hcount htuned hfresh⟩
  exact h.2.2 hcoded

end Run

/-- **Outstanding blocks.** After any number of flushes, none of which has failed, and whatever LQRs
have come or been lost: every entry of `txBlocks` is that of one of the last 101 blocks, so there
are at most 101. The next flush finds no entry under its GroupID, however often that has been used,
and after it every listed id is at most 100 groups behind. An LQR that changes `curM` is for one of
the last 101 blocks. -/
theorem outstanding_fresh {rs : ReedSolomon} {cfg : Config} {s : Session}
    (hr : Reach (session rs cfg) (fun _ _ => True) s) (hcoded : Coded s.tx.sent) :
    s.tx.txBlocks.keys.length ≤ 101 ∧
    (∀ id block, s.tx.txBlocks.lookup id = some block → ∃ b blk, s.tx.sent[b]? = some blk ∧
      id = UInt16.ofNat b ∧ s.tx.sent.length ≤ b + 101 ∧ block = { groupID := id, m := blk.m }) ∧
    (∀ e s' blk, (session rs cfg).step s e = some s' → s'.tx.sent = s.tx.sent ++ [blk] →
      blk.parity ≠ none → s.tx.txBlocks.lookup s.tx.nextGroupID = none ∧
        ∀ id block, s'.tx.txBlocks.lookup id = some block → s.tx.nextGroupID - id ≤ 100) ∧
    ∀ e s', (session rs cfg).step s e = some s' → s'.tx.curM ≠ s.tx.curM →
      ∃ p b, e = .recv p ∧ p.type = .lqr ∧ b < s.tx.sent.length ∧ s.tx.sent.length ≤ b + 101 ∧
        p.groupID = UInt16.ofNat b := by
  have h := onList_of_reach hr hcoded
  have hgroup := (counted_of_reach hr).group
  refine ⟨h.length_le, h, ?_, ?_⟩
  · intro e s' blk hs hsent hpar
    refine ⟨hgroup ▸ h.next, ?_⟩
    intro id block hb
    have hcoded' : Coded s'.tx.sent := by
      rw [hsent]
      intro blk' hblk'
      rcases List.mem_append.mp hblk' with hmem | hmem
      · exact hcoded blk' hmem
      · rwa [List.mem_singleton.mp hmem]
    obtain ⟨b, blk', hb', rfl, hle, -⟩ := onList_of_reach (hr.step trivial hs) hcoded' id block hb
    have hlt : b < s'.tx.sent.length := (List.getElem?_eq_some_iff.mp hb').1
    rw [hsent, List.length_append, List.length_singleton] at hle hlt
    rw [hgroup, UInt16.le_iff_toNat_le, toNat_ofNat_sub (by omega) (by omega)]
    show s.tx.sent.length - b ≤ 100
    omega
  · intro e s' hs hne
    obtain ⟨⟨_, out⟩, hstep, rfl⟩ := Option.map_eq_some_iff.mp hs
    by_cases he : Effective s e
    · cases e with
      | recv p =>
        obtain ⟨ht, honList⟩ := he
        obtain ⟨block, hb⟩ := Option.ne_none_iff_exists'.mp honList
        obtain ⟨b, blk, hsent, hid, hle, -⟩ := h _ block hb
        exact ⟨p, b, rfl, ht, (List.getElem?_eq_some_iff.mp hsent).1, hle, hid⟩
      | _ => exact absurd he (by simp [Effective])
    · exact absurd (Session.step_ineffective hstep he).1 hne

/-- One block is outstanding; the flush of the next one finds no entry under GroupID 1. -/
theorem outstanding_fresh_small :
    ∃ s s', Reach (session reedSolomonTwoOne smallConfig) (fun _ _ => True) s ∧
      (session reedSolomonTwoOne smallConfig).step s (.tx (.read [9])) = some s' ∧
      s.tx.txBlocks.keys = [0] ∧
      s.tx.txBlocks.lookup 1 = none ∧ ∀ id block, s'.tx.txBlocks.lookup id = some block →
      1 - id ≤ 100 := by
  obtain ⟨s, s', hr, hs, hkeys, hgroup, hcoded, hsent, hpar⟩ :
      ∃ s s', Reach (session reedSolomonTwoOne smallConfig) (fun _ _ => True) s ∧
        (session reedSolomonTwoOne smallConfig).step s (.tx (.read [9])) = some s' ∧
        s.tx.txBlocks.keys = [0] ∧
        s.tx.nextGroupID = 1 ∧ Coded s.tx.sent ∧ s'.tx.sent = s.tx.sent ++ s'.tx.sent.drop 1 ∧
        (s'.tx.sent.drop 1).map (fun blk => blk.parity.isSome) = [true] :=
    Reach.exists_step_of_runOk _ ([.launch] ++ flushBlock ++ [.tx .check, .tx (.read [7]),
      .tx .check]) _ (by decide +kernel)
  obtain ⟨blk, hdrop⟩ : ∃ blk, s'.tx.sent.drop 1 = [blk] := List.length_eq_one_iff.mp (by
    rw [← List.length_map (fun blk : Block => blk.parity.isSome), hpar]
    rfl)
  rw [hdrop] at hsent hpar
  obtain ⟨-, -, hflush, -⟩ := outstanding_fresh hr hcoded
  have hne : blk.parity ≠ none := Option.isSome_iff_ne_none.mp (by simpa using hpar)
  obtain ⟨hnone, hage⟩ := hflush _ s' blk hs hsent hne
  rw [hgroup] at hnone hage
  exact ⟨s, s', hr, hs, hkeys, hnone, hage⟩

end TcpPep
