import TcpPep.Proxy.StreamIds

/-!
The search for a free StreamID.

The loop of `getNextStreamID` goes round the ids 1..4095 and stops when it is back
where it began. It begins at 0 once, and never comes back there: what ends the search
then is that no session can be in the table yet.

* `between`, `FirstFree`: the cyclic order of the ids, and the first free one after `lastID`;
* `searchStreamID_spec`: the loop from an id in the circle, by induction on the ids left;
* `Client.OnCircle`: `lastID` is in the circle, or nothing has been allocated;
* `streamID_search`: in every state of a client, the search ends with the first free id, or
  finds all 4095 taken.
-/

namespace TcpPep

open Protocol Fec Events FiniteMap

/-- The number of ids that come after `lastID` and before `id` in the circle 1..4095. -/
def between (lastID id : UInt16) : Nat := (id.toNat + 4094 - lastID.toNat % 4095) % 4095

/-- A StreamID that can be handed out. -/
def Usable (id : UInt16) : Prop := 1 ≤ id.toNat ∧ id.toNat ≤ 4095

/-- `id` is free and every id between `lastID` and it is taken. -/
structure FirstFree (sessions : Table UInt16 Nat) (lastID id : UInt16) : Prop where
  usable : Usable id
  free : sessions.lookup id = none
  first : ∀ id', Usable id' → between lastID id' < between lastID id → sessions.lookup id' ≠ none

section Circle

variable {sessions : Table UInt16 Nat} {lastID id start : UInt16}

theorem toNat_next (lastID : UInt16) : (lastID % 4095 + 1).toNat = lastID.toNat % 4095 + 1 := by
  have h : lastID.toNat % 4095 < 4095 := Nat.mod_lt _ (by decide)
  rw [UInt16.toNat_add, UInt16.toNat_mod]
  exact Nat.mod_eq_of_lt (by simpa using by omega)

theorem usable_next (lastID : UInt16) : Usable (lastID % 4095 + 1) := by
  rw [Usable, toNat_next]
  omega

theorem between_next (lastID : UInt16) : between lastID (lastID % 4095 + 1) = 0 := by
  rw [between, toNat_next]
  omega

theorem eq_next_of_between (hu : Usable id) (h : between lastID id = 0) :
    id = lastID % 4095 + 1 := by
  obtain ⟨h1, h2⟩ := hu
  apply UInt16.toNat_inj.mp
  rw [toNat_next]
  simp only [between] at h
  omega

/-- Every other id is one nearer after a round. -/
theorem between_succ (hu : Usable id) (hne : id ≠ lastID % 4095 + 1) :
    between lastID id = between (lastID % 4095 + 1) id + 1 := by
  have hpos : between lastID id ≠ 0 := fun h => hne (eq_next_of_between hu h)
  obtain ⟨h1, h2⟩ := hu
  simp only [between] at hpos ⊢
  rw [toNat_next]
  omega

theorem between_lt (lastID id : UInt16) : between lastID id < 4095 := Nat.mod_lt _ (by decide)

theorem between_self (hu : Usable start) : between start start = 4094 := by
  obtain ⟨h1, h2⟩ := hu
  simp only [between]
  omega

theorem FirstFree.eq {id' : UInt16} (h : FirstFree sessions lastID id)
    (h' : FirstFree sessions lastID id') : id = id' := by
  have hle : between lastID id = between lastID id' := by
    rcases Nat.lt_trichotomy (between lastID id) (between lastID id') with hlt | heq | hgt
    · exact absurd h.free (h'.first id h.usable hlt)
    · exact heq
    · exact absurd h'.free (h.first id' h'.usable hgt)
  obtain ⟨h1, h2⟩ := h.usable
  obtain ⟨h1', h2'⟩ := h'.usable
  apply UInt16.toNat_inj.mp
  simp only [between] at hle
  omega

/-- An id that is taken moves the first free one no further away. -/
theorem FirstFree.of_next (h : FirstFree sessions (lastID % 4095 + 1) id)
    (htaken : sessions.lookup (lastID % 4095 + 1) ≠ none) : FirstFree sessions lastID id where
  usable := h.usable
  free := h.free
  first := by
    intro id' hu hlt
    by_cases heq : id' = lastID % 4095 + 1
    · rw [heq]
      exact htaken
    · have hne : id ≠ lastID % 4095 + 1 := fun e => htaken (e ▸ h.free)
      rw [between_succ hu heq, between_succ h.usable hne] at hlt
      exact h.first id' hu (by omega)

/-- **Run lemma.** The loop looks at the ids from `lastID` on to `start`. -/
theorem searchStreamID_spec (hu : Usable start) {fuel : Nat} (hfuel : between lastID start < fuel) :
    (∃ id, FirstFree sessions lastID id ∧
      searchStreamID sessions start fuel lastID = some (id, some id)) ∨
    (∀ id, Usable id → between lastID id ≤ between lastID start → sessions.lookup id ≠ none) ∧
      searchStreamID sessions start fuel lastID = some (start, none) := by
  -- by induction on the rounds: each one brings `start` one id nearer
  induction fuel generalizing lastID with
  | zero => omega
  | succ fuel ih =>
    simp only [searchStreamID]
    by_cases hfree : sessions.lookup (lastID % 4095 + 1) = none
    · left
      refine ⟨lastID % 4095 + 1, ⟨usable_next lastID, hfree, ?_⟩, by simp [hfree]⟩
      intro id' _ hlt
      rw [between_next] at hlt
      omega
    · have hsome : (sessions.lookup (lastID % 4095 + 1)).isNone = false := by
        simpa [Option.isSome_iff_ne_none] using hfree
      simp only [hsome, Bool.false_eq_true, ↓reduceIte]
      by_cases hend : lastID % 4095 + 1 = start
      · right
        refine ⟨?_, by rw [if_pos hend, hend]⟩
        intro id hid hle
        rw [← hend, between_next] at hle
        have hzero : between lastID id = 0 := by omega
        rw [eq_next_of_between hid hzero]
        exact hfree
      · have hnear := between_succ hu (Ne.symm hend)
        rw [if_neg hend]
        have hleft : between (lastID % 4095 + 1) start < fuel := by omega
        rcases ih hleft with ⟨id, hid, hs⟩ | ⟨hall, hs⟩
        · exact Or.inl ⟨id, hid.of_next hfree, hs⟩
        · refine Or.inr ⟨?_, hs⟩
          intro id hid hle
          by_cases heq : id = lastID % 4095 + 1
          · rw [heq]
            exact hfree
          · have hnear' := between_succ hid heq
            exact hall id hid (by omega)

end Circle

/-! ## Over a run -/

variable {τ : Type}

/-- `lastID` is in the circle, or no id has been handed out and no session is in the table. -/
def Client.OnCircle (s : Client τ) : Prop :=
  Usable s.lastID ∨ s.lastID = 0 ∧ s.conns = [] ∧ ∀ id, s.sessions.lookup id = none

section Search

variable {rs : ReedSolomon} {pc : PepConfig} {s s' : Client τ} {e : ClientEvent τ}
  {out : List (Nat × Bytes)}

theorem Client.modifyStage_nil (c : Nat) (f : ConnStage τ → ConnStage τ) :
    modifyStage [] c f = [] := by
  simp [modifyStage]

/-- With nothing in the table the first round ends the search. -/
theorem firstFree_of_none (h : ∀ id, s.sessions.lookup id = none) :
    FirstFree s.sessions s.lastID (s.lastID % 4095 + 1) where
  usable := usable_next _
  free := h _
  first := by
    intro id' _ hlt
    rw [between_next] at hlt
    omega

/-- The search from a state of a client, with fuel for one round of the circle or more. -/
theorem Client.OnCircle.search (h : s.OnCircle) :
    (∃ id, FirstFree s.sessions s.lastID id ∧
      ∀ fuel, 4095 ≤ fuel → searchStreamID s.sessions s.lastID fuel s.lastID = some (id, some id)) ∨
    (∀ id, Usable id → s.sessions.lookup id ≠ none) ∧
      ∀ fuel, 4095 ≤ fuel →
      searchStreamID s.sessions s.lastID fuel s.lastID = some (s.lastID, none) := by
  rcases h with hu | ⟨-, -, hnone⟩
  · -- one turn of the circle is 4095 rounds
    have hturn := between_self hu
    have hfuel : between s.lastID s.lastID < 4095 := between_lt _ _
    rcases searchStreamID_spec hu hfuel with ⟨id, hid, -⟩ | ⟨hall, -⟩
    · refine Or.inl ⟨id, hid, fun fuel hle => ?_⟩
      rcases searchStreamID_spec hu (Nat.lt_of_lt_of_le hfuel hle) with ⟨id', hid', hs⟩ | ⟨hall, -⟩
      · rw [hs, hid.eq hid']
      · have hlt := between_lt s.lastID id
        exact absurd hid.free (hall id hid.usable (by omega))
    · have htaken : ∀ id, Usable id → s.sessions.lookup id ≠ none := by
        intro id hid
        have hlt := between_lt s.lastID id
        exact hall id hid (by omega)
      refine Or.inr ⟨htaken, fun fuel hle => ?_⟩
      rcases searchStreamID_spec hu (Nat.lt_of_lt_of_le hfuel hle) with ⟨id, hid, -⟩ | ⟨-, hs⟩
      · exact absurd hid.free (htaken id hid.usable)
      · exact hs
  · refine Or.inl ⟨_, firstFree_of_none hnone, fun fuel hle => ?_⟩
    obtain ⟨n, rfl⟩ := Nat.exists_eq_add_of_le' (Nat.le_trans (show 1 ≤ 4095 by decide) hle)
    simp [searchStreamID, hnone]

/-- Steps that leave `lastID` alone and add neither a connection nor a session. -/
theorem Client.OnCircle.of_keep (h : s.OnCircle) (hlast : s'.lastID = s.lastID)
    (hconns : s.conns = [] → s'.conns = []) (hsessions : (∀ id, s.sessions.lookup id = none) →
      ∀ id, s'.sessions.lookup id = none) : s'.OnCircle := by
  rcases h with hu | ⟨hzero, hnil, hnone⟩
  · exact Or.inl (by rw [hlast]; exact hu)
  · exact Or.inr ⟨hlast.trans hzero, hconns hnil, hsessions hnone⟩

theorem Client.OnCircle.moved (h : s.OnCircle) (hm : Moved rs pc s e s' out) : s'.OnCircle := by
  cases hm with
  | exhausted dest lastID hsearch =>
    rcases h.search with ⟨id, -, hs⟩ | ⟨-, hs⟩
    · rw [getNextStreamID, hs _ (Nat.le_refl _)] at hsearch
      cases hsearch
    · rw [getNextStreamID, hs _ (Nat.le_refl _)] at hsearch
      cases hsearch
      exact h
  | accept dest lastID streamID hsearch =>
    rcases h.search with ⟨id, hid, hs⟩ | ⟨-, hs⟩
    · rw [getNextStreamID, hs _ (Nat.le_refl _)] at hsearch
      cases hsearch
      exact Or.inl hid.usable
    · rw [getNextStreamID, hs _ (Nat.le_refl _)] at hsearch
      cases hsearch
  | register c conn source hc hstage =>
    -- a connection that registers has been given an id
    rcases h with hu | ⟨-, hnil, -⟩
    · exact Or.inl hu
    · rw [hnil] at hc
      cases hc
  | delete id =>
    exact h.of_keep rfl (fun hnil => hnil) fun hnone id' => by simp [lookup_erase_eq, hnone]
  | cleanup id c =>
    exact h.of_keep rfl (fun hnil => by simp [hnil, modifyStage_nil]) fun hnone id' => by
      simp [lookup_erase_eq, hnone]
  | _ => exact h.of_keep rfl (fun hnil => by simp [hnil, modifyStage_nil]) fun hnone => hnone

/-- A StreamID of 12 bits is not what `Marshal` complains about. -/
theorem marshal_ne_streamIDLimit {p : Packet} (h : p.streamID ≤ 0x0FFF) (id : UInt16) :
    marshal p ≠ .error (.streamIDLimit id) := by
  unfold marshal
  rw [if_neg (UInt16.not_lt.mpr h)]
  cases p.type with
  | connect | connErr =>
    dsimp only
    split <;> simp
  | _ => simp

end Search

/-- **The search for a StreamID.** In every state of a client, whatever has been allocated and
whatever sessions are in the table: the loop ends, after 4095 rounds at most. If an id is free, it
hands out the first free one after `lastID` in the circle 1..4095 and makes it the new `lastID`; it
reports that no id is left exactly when all are in the table, and then `lastID` is as before. The id
is not 0, and `Marshal` accepts it. -/
theorem streamID_search {rs : ReedSolomon} {pc : PepConfig} {s : Client τ}
    (hr : Reach (client rs pc) (fun _ _ => True) s) :
    ∃ lastID found, (∀ fuel, 4095 ≤ fuel →
      searchStreamID s.sessions s.lastID fuel s.lastID = some (lastID, found)) ∧
      (∀ dest, ∃ s', (client rs pc).step s (.accept dest) = some s' ∧ s'.lastID = lastID ∧
        s'.conns = s.conns ++ (found.map fun streamID => { dest, streamID : Conn τ }).toList) ∧
      ((∃ id, Usable id ∧ s.sessions.lookup id = none) →
        ∃ id, FirstFree s.sessions s.lastID id ∧ lastID = id ∧ found = some id) ∧
      (found = none ↔ ∀ id, Usable id → s.sessions.lookup id ≠ none) ∧
      (found = none → lastID = s.lastID) ∧
      ∀ id, found = some id → id ≠ 0 ∧ ∀ p : Packet, p.streamID = id →
      marshal p ≠ .error (.streamIDLimit id) := by
  have hcircle : s.OnCircle := by
    refine hr.invariant (I := Client.OnCircle) (Or.inr ⟨rfl, rfl, fun id => rfl⟩) ?_
    intro s e s' h _ hs
    obtain ⟨⟨_, out⟩, hstep, rfl⟩ := Option.map_eq_some_iff.mp hs
    exact h.moved (Client.step_moved hstep)
  rcases hcircle.search with ⟨id, hid, hs⟩ | ⟨hall, hs⟩
  · refine ⟨id, some id, hs, fun dest => ?_, fun _ => ⟨id, hid, rfl, rfl⟩, ?_, by simp, ?_⟩
    · refine ⟨{ s with lastID := id, conns := s.conns ++ [{ dest, streamID := id }] }, ?_, rfl, rfl⟩
      simp only [client, Client.step, getNextStreamID, hs _ (Nat.le_refl _)]
      rfl
    · simp only [reduceCtorEq, false_iff, not_forall]
      exact ⟨id, hid.usable, fun h => h hid.free⟩
    · rintro id' heq
      cases heq
      obtain ⟨h1, h2⟩ := hid.usable
      refine ⟨fun hzero => by simp [hzero] at h1, fun p hp hm => ?_⟩
      exact marshal_ne_streamIDLimit (by rw [hp, UInt16.le_iff_toNat_le]; exact h2) _ hm
  · refine ⟨s.lastID, none, hs, fun dest => ?_, ?_, by simpa using hall, fun _ => rfl, by simp⟩
    · refine ⟨{ s with conns := s.conns ++ [] }, ?_, rfl, rfl⟩
      simp only [client, Client.step, getNextStreamID, hs _ (Nat.le_refl _)]
      rfl
    · rintro ⟨id, hu, hfree⟩
      exact absurd hfree (hall id hu)

/-- One session is registered under StreamID 1 and StreamID 2 is given to a second connection:
the search from there finds 3. -/
theorem streamID_search_small :
    ∃ s : Client Unit, Reach (client reedSolomonTwoOne smallPep) (fun _ _ => True) s ∧
      s.lastID = 2 ∧ s.sessions.lookup 1 = some 0 ∧ ∀ fuel, 4095 ≤ fuel →
      searchStreamID s.sessions 2 fuel 2 = some (3, some 3) := by
  obtain ⟨s, hr, hlast, hone, hthree⟩ : ∃ s : Client Unit,
      Reach (client reedSolomonTwoOne smallPep) (fun _ _ => True) s ∧ s.lastID = 2 ∧
      s.sessions.lookup 1 = some 0 ∧ s.sessions.lookup 3 = none :=
    Reach.exists_of_runOk _ [.accept [65], .conn 0 .openChannel, .conn 0 .send, .accept [66],
      .recv () [0x10, 1], .conn 0 .take, .conn 0 .register] (by decide +kernel)
  have husable : Usable 3 := ⟨by decide, by decide⟩
  obtain ⟨lastID, found, hsearch, -, hfirst, -⟩ := streamID_search hr
  obtain ⟨id, hid, rfl, rfl⟩ := hfirst ⟨3, husable, hthree⟩
  rw [hlast] at hsearch hid
  have hnext : between 2 3 = 0 := by decide
  have hzero : between 2 lastID = 0 := by
    by_contra hne
    exact hid.first 3 husable (by omega) hthree
  obtain rfl : lastID = 3 := eq_next_of_between hid.usable hzero
  exact ⟨s, hr, hlast, hone, hsearch⟩

end TcpPep
