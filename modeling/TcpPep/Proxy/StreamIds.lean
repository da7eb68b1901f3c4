import TcpPep.Proxy.Handshake

/-!
The StreamIDs of one client.

`getNextStreamID` looks at `sessions` alone. A connection whose handshake is still
running has its StreamID in `pendingConnects`, or only in a variable of its
`handleTCPConn`, so after 4095 further allocations the StreamID is handed out
again.

* `Client.TableStep`: what a step does to `sessions` and to the demultiplexer;
* `Client.Separate`: handshakes have different StreamIDs that are not in the table, and
  every running session is in it;
* `Client.LastGiven`: who is in a handshake was given the StreamID last;
* `Prompt`: no answer to an earlier holder arrives while a later one waits;
* `streamIDs_unique`: when a StreamID is handed out only after its last handshake has ended,
  no two live connections share one, and prompt answers reach their own connection;
* `streamID_shared`: the 4096th connection is given the StreamID of the first.
-/

namespace TcpPep

open Protocol Fec Events FiniteMap

variable {τ : Type}

/-- From `getNextStreamID` to the end of the handshake or of the session. -/
def ConnStage.live : ConnStage τ → Bool
  | .established session => !session.cancelled
  | stage => stage.handshaking

/-- The machine of one client. -/
def client (rs : ReedSolomon) (pc : PepConfig) : Machine (Client τ) (ClientEvent τ) where
  init := {}
  step s e := (s.step rs pc e).map Prod.fst

/-- No two live connections hold the same StreamID. -/
def Client.Unique (s : Client τ) : Prop :=
  ∀ (i j : Nat) (ci cj : Conn τ), s.conns[i]? = some ci → s.conns[j]? = some cj →
    ci.stage.live = true → cj.stage.live = true → ci.streamID = cj.streamID → i = j

/-- A StreamID is handed out when no connection with it is in its handshake. -/
def Unheld (s : Client τ) : ClientEvent τ → Prop
  | .accept _ =>
    ∀ id ∈ s.nextStreamID, ∀ conn ∈ s.conns, conn.streamID = id → conn.stage.handshaking = false
  | _ => True

instance (s : Client τ) (e : ClientEvent τ) : Decidable (Unheld s e) :=
  match e with
  | .accept _ => Option.decidableForallMem s.nextStreamID
  | .conn _ _ | .recv _ _ | .demux _ | .cleanup _ => .isTrue trivial

/-- An answer belongs to a connection with its StreamID, and none that was given the StreamID later
is in its handshake. `owner` says for which connection an answer was sent. -/
def Client.ToHolder (owner : τ → Nat) (s : Client τ) (source : τ) (p : Packet) : Prop :=
  (s.conns[owner source]?).map Conn.streamID = some p.streamID ∧
    ∀ conn ∈ s.conns.drop (owner source + 1), conn.streamID = p.streamID →
      conn.stage.handshaking = false

instance (owner : τ → Nat) (s : Client τ) (source : τ) (p : Packet) :
    Decidable (s.ToHolder owner source p) :=
  inferInstanceAs (Decidable (_ ∧ _))

/-- No answer to an earlier holder of a StreamID arrives while a later one waits for its own. -/
def Prompt (owner : τ → Nat) (s : Client τ) : ClientEvent τ → Prop
  | .recv source a =>
    ∀ p ∈ (readUDP a).toOption, p.type = .connAck ∨ p.type = .connErr → s.ToHolder owner source p
  | _ => True

instance (owner : τ → Nat) (s : Client τ) (e : ClientEvent τ) : Decidable (Prompt owner s e) :=
  match e with
  | .recv _ a => Option.decidableForallMem (readUDP a).toOption
  | .accept _ | .conn _ _ | .demux _ | .cleanup _ => .isTrue trivial

/-- The steps of connection `c` itself, and the arrival of an answer to it. -/
def ClientEvent.belongsTo (owner : τ → Nat) (c : Nat) : ClientEvent τ → Prop
  | .conn c' _ => c' = c
  | .recv source _ => owner source = c
  | _ => False

/-! ## Who holds a StreamID -/

namespace Client

/-- Connection `i` is in its handshake with StreamID `id`. -/
def Shakes (s : Client τ) (i : Nat) (id : UInt16) : Prop :=
  ∃ conn, s.conns[i]? = some conn ∧ conn.streamID = id ∧ conn.stage.handshaking = true

/-- It has been sent a CONN_ACK. -/
def Acked (s : Client τ) (i : Nat) (id : UInt16) : Prop :=
  ∃ conn source, s.conns[i]? = some conn ∧ conn.streamID = id ∧ conn.stage.answeredBy = some source

/-- Connection `i` has a session with StreamID `id` that is not cancelled. -/
def Runs (s : Client τ) (i : Nat) (id : UInt16) : Prop :=
  ∃ conn session, s.conns[i]? = some conn ∧ conn.streamID = id ∧ conn.stage = .established session ∧
    session.cancelled = false

variable {rs : ReedSolomon} {pc : PepConfig} {s s' : Client τ} {e : ClientEvent τ}
  {out : List (Nat × Bytes)} {i : Nat} {id : UInt16}

theorem Acked.shakes (h : s.Acked i id) : s.Shakes i id := by
  obtain ⟨conn, source, hc, hid, hsource⟩ := h
  exact ⟨conn, hc, hid, ConnStage.handshaking_of_answeredBy hsource⟩

theorem shakes_or_runs {conn : Conn τ} (hc : s.conns[i]? = some conn)
    (hl : conn.stage.live = true) :
    s.Shakes i conn.streamID ∨ s.Runs i conn.streamID := by
  cases hstage : conn.stage with
  | established session =>
    right
    refine ⟨conn, session, hc, rfl, hstage, ?_⟩
    simpa [hstage, ConnStage.live] using hl
  | _ =>
    left
    refine ⟨conn, hc, rfl, ?_⟩
    simpa [hstage, ConnStage.live] using hl

/-- A StreamID is free when it is handed out. -/
theorem searchStreamID_free {sessions : Table UInt16 Nat} {start lastID lastID' : UInt16}
    {fuel : Nat} (h : searchStreamID sessions start fuel lastID = some (lastID', some id)) :
    sessions.lookup id = none := by
  induction fuel generalizing lastID with
  | zero => cases h
  | succ fuel ih =>
    simp only [searchStreamID] at h
    split at h
    · rename_i hfree
      cases h
      simpa using hfree
    · split at h
      · cases h
      · exact ih h

/-- A handshake was running before the step, or its StreamID has just been handed out. -/
theorem Moved.shakes (hm : Moved rs pc s e s' out) (h : s'.Shakes i id) :
    s.Shakes i id ∨ i = s.conns.length ∧ s'.sessions = s.sessions ∧
      ∃ dest lastID, e = .accept dest ∧
      getNextStreamID s.sessions s.lastID = some (lastID, some id) := by
  obtain ⟨conn', hc, hid, hh⟩ := h
  rcases hm.continues hc hh with ⟨conn, hconn, -, hid', hh', -⟩ | ⟨hi, hconns, -⟩
  · exact Or.inl ⟨conn, hconn, hid'.trans hid, hh'⟩
  · right
    rcases hm.requests with hreq | ⟨dest, lastID, streamID, rfl, hsearch, hconns'⟩
    · have hlen := congrArg List.length hreq
      simp [Client.requests, hconns] at hlen
    · have hlast := List.append_cancel_left (hconns.symm.trans hconns')
      obtain rfl := List.singleton_inj.mp hlast
      subst hid
      refine ⟨hi, ?_, dest, lastID, rfl, hsearch⟩
      cases hm <;> rfl

/-- A CONN_ACK that is there was there before the step, or has just been read. -/
theorem step_acked (hs : s.step rs pc e = some (s', out)) (h : s'.Acked i id) :
    s.Acked i id ∨ s.loop = .read := by
  obtain ⟨conn', source, hc, hid, hsource⟩ := h
  rcases (step_moved hs).continues hc (ConnStage.handshaking_of_answeredBy hsource) with
    ⟨conn, hconn, -, hid', -, hack⟩ | ⟨-, -, hstage⟩
  · rcases hack source hsource with hack | ⟨a, p, rfl, -⟩
    · exact Or.inl ⟨conn, source, hconn, hid'.trans hid, hack⟩
    · right
      simp only [step] at hs
      split at hs
      · assumption
      · cases hs
  · simp [hstage, ConnStage.answeredBy] at hsource

/-- Sessions begin with their registration. -/
theorem Moved.runs (hm : Moved rs pc s e s' out) (h : s'.Runs i id) :
    s.Runs i id ∨ s.Acked i id ∧ s'.sessions = s.sessions.insert id i := by
  obtain ⟨conn', session', hc, hid, hstage', hrun⟩ := h
  -- a session that was there before runs after the step only if it ran before it
  have hkeep : ∀ c f, s'.conns = modifyStage s.conns c f →
      (∀ conn, s.conns[c]? = some conn → f conn.stage = .established session' →
        ∃ session, conn.stage = .established session ∧
        (session.cancelled = true → session'.cancelled = true)) →
      s.Runs i id := by
    intro c f hs hf
    rw [hs, getElem?_modifyStage] at hc
    split at hc
    · rename_i hci
      subst hci
      obtain ⟨conn, hconn, rfl⟩ := Option.map_eq_some_iff.mp hc
      obtain ⟨session, hstage, hmono⟩ := hf conn hconn hstage'
      exact ⟨conn, session, hconn, hid, hstage,
        Bool.eq_false_iff.mpr fun ht => Bool.eq_false_iff.mp hrun (hmono ht)⟩
    · exact ⟨conn', session', hc, hid, hstage', hrun⟩
  cases hm with
  | exhausted | send | ignore | found | delete =>
    exact Or.inl ⟨conn', session', hc, hid, hstage', hrun⟩
  | accept dest lastID streamID hsearch =>
    rw [List.getElem?_append] at hc
    split at hc
    · exact Or.inl ⟨conn', session', hc, hid, hstage', hrun⟩
    · obtain rfl := List.mem_singleton.mp (List.mem_of_getElem? hc)
      cases hstage'
  | openChannel | take | refused | abandon =>
    refine Or.inl (hkeep _ _ rfl fun conn _ h => ?_)
    cases h
  | register c conn source hconn hstage =>
    simp only [getElem?_modifyStage] at hc
    split at hc
    · rename_i hci
      subst hci
      obtain ⟨conn₁, hconn₁, rfl⟩ := Option.map_eq_some_iff.mp hc
      obtain rfl := Option.some.inj (hconn.symm.trans hconn₁)
      subst hid
      exact Or.inr ⟨⟨conn, source, hconn, rfl, by simp [hstage, ConnStage.answeredBy]⟩, rfl⟩
    · exact Or.inl ⟨conn', session', hc, hid, hstage', hrun⟩
  | act c conn session e session₁ sent hconn hstage hs =>
    refine Or.inl (hkeep _ _ rfl fun conn₁ hconn₁ h => ?_)
    obtain rfl := Option.some.inj (hconn.symm.trans hconn₁)
    cases h
    exact ⟨session, hstage, (Session.step_rxChange hs).2.2⟩
  | answer source a p c hread ht hpend =>
    exact Or.inl (hkeep _ _ rfl fun conn _ h => ⟨session', ConnStage.of_answer h, fun ht => ht⟩)
  | handle c conn session p loop hconn hstage =>
    refine Or.inl (hkeep _ _ rfl fun conn₁ hconn₁ h => ?_)
    obtain rfl := Option.some.inj (hconn.symm.trans hconn₁)
    cases h
    exact ⟨session, hstage, Session.handle_cancelled _ p⟩
  | finish c =>
    refine Or.inl (hkeep _ _ rfl fun conn _ h => ?_)
    obtain ⟨session, hstage, rfl⟩ := ConnStage.of_mapSession h
    exact ⟨session, hstage, Session.finishHandler_cancelled⟩
  | cleanup id c =>
    refine Or.inl (hkeep _ _ rfl fun conn _ h => ?_)
    obtain ⟨session, hstage, rfl⟩ := ConnStage.of_mapSession h
    exact ⟨session, hstage, fun _ => rfl⟩

/-! ## The table of sessions and the demultiplexer -/

theorem not_runs_of_modifyStage {c : Nat} {f : ConnStage τ → ConnStage τ}
    (hs : s'.conns = modifyStage s.conns c f) (hf : ∀ conn session, s.conns[c]? = some conn →
      f conn.stage = .established session → session.cancelled = true) :
    ¬ s'.Runs c id := by
  rintro ⟨conn', session, hc, -, hstage, hrun⟩
  rw [hs, getElem?_modifyStage, if_pos rfl] at hc
  obtain ⟨conn, hconn, rfl⟩ := Option.map_eq_some_iff.mp hc
  exact Bool.eq_false_iff.mp hrun (hf conn session hconn hstage)

/-- What a step does to `sessions` and where it takes the demultiplexer. -/
inductive TableStep (s s' : Client τ) : Prop
  | same (hs : s'.sessions = s.sessions) (hl : s'.loop = s.loop)
  | done (hs : s'.sessions = s.sessions) (hl : s'.loop = .read ∨ ∃ id c, s'.loop = .handler id c)
  | register (c : Nat) (id : UInt16) (hacked : s.Acked c id) (hdone : ¬ s'.Shakes c id)
      (hs : s'.sessions = s.sessions.insert id c) (hl : s'.loop = s.loop)
  | found (p : Packet) (source : τ) (c : Nat) (hc : s.sessions.lookup p.streamID = some c)
      (hs : s'.sessions = s.sessions) (hl : s'.loop = .found p source c)
  | closed (p : Packet) (source : τ) (c : Nat) (hloop : s.loop = .found p source c)
      (ht : p.type = .reset) (hclosed : ∀ id, ¬ s'.Runs c id) (hs : s'.sessions = s.sessions)
      (hl : s'.loop = .reset p.streamID)
  | delete (id : UInt16) (hloop : s.loop = .reset id) (hs : s'.sessions = s.sessions.erase id)
      (hl : s'.loop = .read)
  | cleanup (id : UInt16) (c : Nat) (hc : s.sessions.lookup id = some c)
      (hclosed : ∀ id, ¬ s'.Runs c id) (hs : s'.sessions = s.sessions.erase id)
      (hl : s'.loop = s.loop)

theorem step_tableStep (hs : s.step rs pc e = some (s', out)) : TableStep s s' := by
  cases e with
  | accept dest => cases step_moved hs <;> exact .same rfl rfl
  | conn c e =>
    cases step_moved hs with
    | register _ conn source hc hstage =>
      refine .register c conn.streamID ⟨conn, source, hc, rfl, by
        simp [hstage, ConnStage.answeredBy]⟩ ?_ rfl rfl
      rintro ⟨conn', hc', -, hh⟩
      simp only [getElem?_modifyStage, ↓reduceIte, Option.map_eq_some_iff] at hc'
      obtain ⟨conn₁, -, rfl⟩ := hc'
      simp [ConnStage.handshaking] at hh
    | _ => exact .same rfl rfl
  | recv source a =>
    simp only [step] at hs
    split at hs
    · split at hs
      · cases hs
        exact .same rfl rfl
      · rename_i p hread
        cases hs
        unfold lookup
        split
        · split <;> exact .same rfl rfl
        · split
          · rename_i c hc
            exact .found p source c hc rfl rfl
          · exact .same rfl rfl
    · cases hs
  | demux e =>
    simp only [step, Option.map_eq_some_iff, Prod.mk.injEq] at hs
    obtain ⟨_, hs, rfl, rfl⟩ := hs
    cases e with
    | dispatch =>
      simp only [demux] at hs
      split at hs
      · rename_i p source c hloop
        split at hs
        · rename_i dest streamID session hc
          cases hs
          by_cases ht : p.type = .reset
          · refine .closed p source c hloop ht (fun id => ?_) rfl (by simp [ht])
            refine not_runs_of_modifyStage rfl fun conn session' hconn h => ?_
            cases h
            simp [Session.handle, ht, Session.close]
          · refine .done rfl ?_
            simp only [ht, ↓reduceIte]
            split
            · exact Or.inl rfl
            · exact Or.inr ⟨_, _, rfl⟩
        · cases hs
      · cases hs
    | finish =>
      simp only [demux] at hs
      split at hs
      · cases hs
        exact .done rfl (Or.inl rfl)
      · cases hs
    | delete =>
      simp only [demux] at hs
      split at hs
      · rename_i id hloop
        cases hs
        exact .delete id hloop rfl rfl
      · cases hs
  | cleanup id =>
    simp only [step] at hs
    split at hs
    · rename_i c hc
      cases hs
      refine .cleanup id c hc (fun id' => ?_) rfl rfl
      refine not_runs_of_modifyStage rfl fun conn session hconn h => ?_
      obtain ⟨session₀, -, rfl⟩ := ConnStage.of_mapSession h
      rfl
    · cases hs

/-- Handshakes have different StreamIDs, which are not in the table; sessions that run are
in it. While a RESET is handled, no other session can take the place of the one it found. -/
structure Separate (s : Client τ) : Prop where
  unique : ∀ i j id, s.Shakes i id → s.Shakes j id → i = j
  unstored : ∀ i id, s.Shakes i id → s.sessions.lookup id = none
  stored : ∀ i id, s.Runs i id → s.sessions.lookup id = some i
  found : ∀ p source c, s.loop = .found p source c → p.type = .reset →
    (∀ i, s.sessions.lookup p.streamID = some i → i = c) ∧ ∀ i, ¬ s.Acked i p.streamID
  reset : ∀ id, s.loop = .reset id → ∀ i, ¬ s.Runs i id ∧ ¬ s.Acked i id

theorem separate_init : Separate ({} : Client τ) := by
  refine ⟨?_, ?_, ?_, by simp, by simp⟩
  · rintro i j id ⟨conn, hc, -⟩
    simp at hc
  · rintro i id ⟨conn, hc, -⟩
    simp at hc
  · rintro i id ⟨conn, session, hc, -⟩
    simp at hc

section Step

variable (h : Separate s) (hok : Unheld s e) (hs : s.step rs pc e = some (s', out))

include h hok hs

theorem Separate.unique_step {j : Nat} (hi : s'.Shakes i id) (hj : s'.Shakes j id) : i = j := by
  -- a StreamID that is handed out is not held by a handshake
  have hnew : ∀ dest lastID k, e = .accept dest →
      getNextStreamID s.sessions s.lastID = some (lastID, some id) → ¬ s.Shakes k id := by
    rintro dest lastID k rfl hsearch ⟨conn, hc, hid, hh⟩
    have hfree := hok id (by simp [nextStreamID, hsearch]) conn (List.mem_of_getElem? hc) hid
    simp [hfree] at hh
  rcases (step_moved hs).shakes hi with hi | ⟨hi, -, dest, lastID, he, hsearch⟩
  · rcases (step_moved hs).shakes hj with hj | ⟨hj, -, dest, lastID, he, hsearch⟩
    · exact h.unique i j id hi hj
    · exact absurd hi (hnew dest lastID i he hsearch)
  · rcases (step_moved hs).shakes hj with hj | ⟨hj, -⟩
    · exact absurd hj (hnew dest lastID j he hsearch)
    · exact hi.trans hj.symm

omit hok in
theorem Separate.unstored_step (hi : s'.Shakes i id) : s'.sessions.lookup id = none := by
  rcases (step_moved hs).shakes hi with hi₀ | ⟨-, hses, dest, lastID, -, hsearch⟩
  · have hnone := h.unstored i id hi₀
    cases step_tableStep hs with
    | same hses hl | done hses hl | found p source c hc hses hl
    | closed p source c hloop ht hclosed hses hl =>
      rw [hses, hnone]
    | register c id' hacked hdone hses hl =>
      rw [hses, lookup_insert_eq]
      split
      · rename_i hid
        subst hid
        -- the registered connection was the one with this StreamID
        rw [h.unique i c id hi₀ hacked.shakes] at hi
        exact absurd hi hdone
      · exact hnone
    | delete id' hloop hses hl | cleanup id' c hc hclosed hses hl =>
      rw [hses, lookup_erase_eq]
      split
      · rfl
      · exact hnone
  · rw [hses]
    exact searchStreamID_free hsearch

omit hok in
theorem Separate.stored_step (hi : s'.Runs i id) : s'.sessions.lookup id = some i := by
  rcases (step_moved hs).runs hi with hi₀ | ⟨-, hses⟩
  · have hsome := h.stored i id hi₀
    cases step_tableStep hs with
    | same hses hl | done hses hl | found p source c hc hses hl
    | closed p source c hloop ht hclosed hses hl =>
      rw [hses, hsome]
    | register c id' hacked hdone hses hl =>
      have hne : id ≠ id' := by
        rintro rfl
        rw [h.unstored c id hacked.shakes] at hsome
        cases hsome
      rw [hses, lookup_insert_eq, if_neg hne, hsome]
    | delete id' hloop hses hl =>
      have hne : id ≠ id' := by
        rintro rfl
        exact (h.reset id hloop i).1 hi₀
      rw [hses, lookup_erase_eq, if_neg hne, hsome]
    | cleanup id' c hc hclosed hses hl =>
      have hne : id ≠ id' := by
        rintro rfl
        obtain rfl := Option.some.inj (hc.symm.trans hsome)
        exact hclosed id hi
      rw [hses, lookup_erase_eq, if_neg hne, hsome]
  · rw [hses, lookup_insert_eq, if_pos rfl]

omit hok in
theorem Separate.found_step {p : Packet} {source : τ} {c : Nat} (hl' : s'.loop = .found p source c)
    (ht : p.type = .reset) :
    (∀ i, s'.sessions.lookup p.streamID = some i → i = c) ∧ ∀ i, ¬ s'.Acked i p.streamID := by
  -- nothing is read while the loop is busy
  have hacked : s.loop = .found p source c → ∀ i, ¬ s'.Acked i p.streamID := by
    intro hloop i hi
    rcases step_acked hs hi with hi | hread
    · exact (h.found p source c hloop ht).2 i hi
    · simp [hloop] at hread
  cases step_tableStep hs with
  | same hses hl =>
    have hloop := hl.symm.trans hl'
    rw [hses]
    exact ⟨(h.found p source c hloop ht).1, hacked hloop⟩
  | done hses hl =>
    rw [hl'] at hl
    simp at hl
  | register c' id' hack hdone hses hl =>
    have hloop := hl.symm.trans hl'
    refine ⟨fun i hi => ?_, hacked hloop⟩
    rw [hses, lookup_insert_eq] at hi
    split at hi
    · rename_i hid
      subst hid
      exact absurd hack ((h.found p source c hloop ht).2 c')
    · exact (h.found p source c hloop ht).1 i hi
  | found p' source' c' hc hses hl =>
    cases hl.symm.trans hl'
    refine ⟨fun i hi => ?_, fun i hi => ?_⟩
    · rw [hses, hc] at hi
      exact (Option.some.inj hi).symm
    · have hnone := h.unstored_step hs hi.shakes
      rw [hses, hc] at hnone
      cases hnone
  | closed p' source' c' hloop ht' hclosed hses hl =>
    rw [hl'] at hl
    cases hl
  | delete id' hloop hses hl =>
    rw [hl'] at hl
    cases hl
  | cleanup id' c' hc hclosed hses hl =>
    have hloop := hl.symm.trans hl'
    refine ⟨fun i hi => ?_, hacked hloop⟩
    rw [hses, lookup_erase_eq, Option.ite_none_left_eq_some] at hi
    exact (h.found p source c hloop ht).1 i hi.2

omit hok in
theorem Separate.reset_step {id : UInt16} (hl' : s'.loop = .reset id) (i : Nat) :
    ¬ s'.Runs i id ∧ ¬ s'.Acked i id := by
  have hkeep : s.loop = .reset id → ¬ s'.Runs i id ∧ ¬ s'.Acked i id := by
    intro hloop
    obtain ⟨hrun, hack⟩ := h.reset id hloop i
    constructor
    · intro hi
      rcases (step_moved hs).runs hi with hi | ⟨hi, -⟩
      · exact hrun hi
      · exact hack hi
    · intro hi
      rcases step_acked hs hi with hi | hread
      · exact hack hi
      · simp [hloop] at hread
  cases step_tableStep hs with
  | same hses hl | register c id' hacked hdone hses hl | cleanup id' c hc hclosed hses hl =>
    exact hkeep (hl.symm.trans hl')
  | done hses hl =>
    rw [hl'] at hl
    simp at hl
  | found p source c hc hses hl =>
    rw [hl'] at hl
    cases hl
  | closed p source c hloop ht hclosed hses hl =>
    cases hl.symm.trans hl'
    obtain ⟨hentry, hack⟩ := h.found p source c hloop ht
    constructor
    · intro hi
      -- a session that still runs is the one in the table, hence the one just closed
      have hsome := h.stored_step hs hi
      rw [hses] at hsome
      rw [hentry i hsome] at hi
      exact hclosed _ hi
    · intro hi
      rcases step_acked hs hi with hi | hread
      · exact hack i hi
      · simp [hloop] at hread
  | delete id' hloop hses hl =>
    rw [hl'] at hl
    cases hl

/-- A StreamID that is handed out when it is free keeps the holders apart, and so does every other
step. -/
theorem Separate.step : Separate s' where
  unique _ _ _ := h.unique_step hok hs
  unstored _ _ := h.unstored_step hs
  stored _ _ := h.stored_step hs
  found _ _ _ := h.found_step hs
  reset _ := h.reset_step hs

end Step

theorem Separate.uniqueLive (h : Separate s) : s.Unique := by
  intro i j ci cj hi hj hli hlj hid
  rcases shakes_or_runs hi hli with hi | hi
  · rcases shakes_or_runs hj hlj with hj | hj
    · rw [← hid] at hj
      exact h.unique i j _ hi hj
    · rw [← hid] at hj
      have hsome := h.stored j _ hj
      rw [h.unstored i _ hi] at hsome
      cases hsome
  · rcases shakes_or_runs hj hlj with hj | hj
    · rw [← hid] at hj
      have hsome := h.stored i _ hi
      rw [h.unstored j _ hj] at hsome
      cases hsome
    · rw [← hid] at hj
      exact Option.some.inj ((h.stored i _ hi).symm.trans (h.stored j _ hj))

/-- A connection in its handshake is the last one that was given its StreamID. -/
def LastGiven (s : Client τ) : Prop :=
  ∀ i id, s.Shakes i id → ∀ (j : Nat) (conn : Conn τ), s.conns[j]? = some conn →
    conn.streamID = id → j ≤ i

/-- A connection was there before with its StreamID, or it has just been given one. -/
theorem Moved.given (hm : Moved rs pc s e s' out) {j : Nat} {conn' : Conn τ}
    (hj : s'.conns[j]? = some conn') :
    (∃ conn, s.conns[j]? = some conn ∧ conn.streamID = conn'.streamID) ∨
      j = s.conns.length ∧ s.nextStreamID = some conn'.streamID ∧ ∃ dest, e = .accept dest := by
  rcases hm.requests with hreq | ⟨dest, lastID, streamID, rfl, hsearch, hconns⟩
  · have hsame := congrArg (fun l => l[j]?) hreq
    simp only [Client.requests, List.getElem?_map, hj, Option.map_some] at hsame
    obtain ⟨conn, hconn, heq⟩ := Option.map_eq_some_iff.mp hsame.symm
    exact Or.inl ⟨conn, hconn, congrArg Prod.snd heq⟩
  · have hlt := (List.getElem?_eq_some_iff.mp hj).1
    rw [hconns, List.length_append, List.length_singleton] at hlt
    rw [hconns] at hj
    rcases Nat.lt_succ_iff_lt_or_eq.mp hlt with hold | rfl
    · rw [List.getElem?_append_left hold] at hj
      exact Or.inl ⟨conn', hj, rfl⟩
    · obtain rfl := Option.some.inj (List.getElem?_concat_length.symm.trans hj)
      exact Or.inr ⟨rfl, by simp [nextStreamID, hsearch], dest, rfl⟩

theorem LastGiven.step (h : s.LastGiven) (hok : Unheld s e) (hs : s.step rs pc e = some (s', out)) :
    s'.LastGiven := by
  intro i id hshakes j conn' hj hid
  have hm := step_moved hs
  rcases hm.given hj with ⟨conn, hconn, heq⟩ | ⟨rfl, hnext, dest, rfl⟩
  · rcases hm.shakes hshakes with hold | ⟨rfl, -⟩
    · exact h i id hold j conn hconn (heq.trans hid)
    · exact Nat.le_of_lt (List.getElem?_eq_some_iff.mp hconn).1
  · rcases hm.shakes hshakes with ⟨conn, hconn, hconnid, hh⟩ | ⟨rfl, -⟩
    · -- the new connection would have the StreamID of a handshake
      have hfree := hok _ hnext conn (List.mem_of_getElem? hconn) (hconnid.trans hid.symm)
      rw [hfree] at hh
      cases hh
    · exact Nat.le_refl _

/-- What the theorems below need of a run in which StreamIDs are handed out when they are free. -/
structure Apart (s : Client τ) : Prop where
  separate : s.Separate
  pending : s.Pending
  lastGiven : s.LastGiven

theorem apart_of_reach (hr : Reach (client rs pc) Unheld s) : s.Apart := by
  refine hr.invariant (I := Client.Apart) ⟨separate_init, ?_, ?_⟩ ?_
  · intro id c hlook
    simp [client] at hlook
  · rintro i id ⟨conn, hconn, -⟩
    simp [client] at hconn
  · intro s e s' h hok hs
    obtain ⟨⟨_, out⟩, hstep, rfl⟩ := Option.map_eq_some_iff.mp hs
    exact ⟨h.separate.step hok hstep, h.pending.moved (step_moved hstep),
      h.lastGiven.step hok hstep⟩

/-- An entry under the StreamID of a live connection is the entry of this connection. -/
theorem Apart.own (h : s.Apart) {c c' : Nat} {conn : Conn τ} (hc : s.conns[c]? = some conn)
    (hl : conn.stage.live = true) (hlook : s.pendingConnects.lookup conn.streamID = some c') :
    c' = c := by
  obtain ⟨conn', hc', hid, hstage⟩ := h.pending _ _ hlook
  have hl' : conn'.stage.live = true := by simp [hstage, ConnStage.live, ConnStage.handshaking]
  exact h.separate.uniqueLive c' c conn' conn hc' hc hl' hl hid

/-- An answer that finds an entry goes to the holder exactly when it belongs to the connection of
the entry. -/
theorem Apart.toHolder_iff (h : s.Apart) {owner : τ → Nat} {source : τ} {p : Packet} {c : Nat}
    (hc : s.pendingConnects.lookup p.streamID = some c)
    (howner : (s.conns[owner source]?).map Conn.streamID = some p.streamID) :
    s.ToHolder owner source p ↔ owner source = c := by
  obtain ⟨conn, hconn, hid, hstage⟩ := h.pending _ _ hc
  have hshakes : s.Shakes c p.streamID :=
    ⟨conn, hconn, hid, by simp [hstage, ConnStage.handshaking]⟩
  obtain ⟨conn', hconn', hid'⟩ := Option.map_eq_some_iff.mp howner
  have hle : owner source ≤ c := h.lastGiven c _ hshakes _ conn' hconn' hid'
  constructor
  · rintro ⟨-, hlater⟩
    by_contra hne
    -- connection `c` was given the StreamID later and waits
    have hmem : conn ∈ s.conns.drop (owner source + 1) := by
      refine List.mem_of_getElem? (i := c - (owner source + 1)) ?_
      rw [List.getElem?_drop, show owner source + 1 + (c - (owner source + 1)) = c by omega]
      exact hconn
    have hfree := hlater conn hmem hid
    simp [hstage, ConnStage.handshaking] at hfree
  · rintro rfl
    refine ⟨howner, ?_⟩
    intro later hmem hsame
    obtain ⟨k, hk⟩ := List.mem_iff_getElem?.mp hmem
    rw [List.getElem?_drop] at hk
    have hle := h.lastGiven _ _ hshakes _ later hk hsame
    omega

theorem prompt_recv {owner : τ → Nat} {source : τ} {a : Bytes} {p : Packet}
    (hread : readUDP a = .ok p) (ht : p.type = .connAck ∨ p.type = .connErr) :
    Prompt owner s (.recv source a) ↔ s.ToHolder owner source p := by
  simp [Prompt, hread, Except.toOption, ht]

/-- An entry of `pendingConnects` goes away by a step that belongs to its connection. -/
theorem Apart.entry (h : s.Apart) {owner : τ → Nat} (hm : Moved rs pc s e s' out)
    (hok : Prompt owner s e) {id : UInt16} {c : Nat} (hc : s.pendingConnects.lookup id = some c) :
    s'.pendingConnects.lookup id = some c ∨ e.belongsTo owner c := by
  cases hm with
  | openChannel c' conn hconn hstage =>
    by_cases hid : id = conn.streamID
    · subst hid
      have hl : conn.stage.live = true := by simp [hstage, ConnStage.live, ConnStage.handshaking]
      exact Or.inr (h.own hconn hl hc).symm
    · left
      rw [lookup_insert_eq, if_neg hid]
      exact hc
  | abandon c' conn reply e hconn hstage he =>
    by_cases hid : id = conn.streamID
    · subst hid
      have hl : conn.stage.live = true := by simp [hstage, ConnStage.live, ConnStage.handshaking]
      exact Or.inr (h.own hconn hl hc).symm
    · left
      rw [lookup_erase_eq, if_neg hid]
      exact hc
  | answer source a p c' hread ht hc' =>
    by_cases hid : id = p.streamID
    · subst hid
      have hholder := (prompt_recv hread ht).mp hok
      exact Or.inr ((h.toHolder_iff hc hholder.1).mp hholder)
    · left
      rw [lookup_erase_eq, if_neg hid]
      exact hc
  | _ => exact Or.inl hc

/-- An answer takes the entry it finds. -/
theorem recv_answer {source : τ} {a : Bytes} {p : Packet} {c : Nat}
    (hs : s.step rs pc (.recv source a) = some (s', out)) (hread : readUDP a = .ok p)
    (ht : p.type = .connAck ∨ p.type = .connErr)
    (hc : s.pendingConnects.lookup p.streamID = some c) :
    s'.pendingConnects.lookup p.streamID = none := by
  cases hloop : s.loop with
  | read =>
    simp only [Client.step, hloop, hread, Client.lookup, if_pos ht, hc, Option.some.injEq,
      Prod.mk.injEq] at hs
    obtain ⟨rfl, -⟩ := hs
    rw [lookup_erase_eq, if_pos rfl]
  | _ => simp [Client.step, hloop] at hs

/-- A CONN_ACK in a channel belongs to the connection of the channel. -/
def Addressed (owner : τ → Nat) (s : Client τ) : Prop :=
  ∀ (c : Nat) (conn : Conn τ) (source : τ), s.conns[c]? = some conn →
    conn.stage.answeredBy = some source → owner source = c

theorem Addressed.step {owner : τ → Nat} (ha : s.Addressed owner) (h : s.Apart)
    (hok : Prompt owner s e) (hm : Moved rs pc s e s' out) : s'.Addressed owner := by
  intro c conn' source hc hsource
  rcases hm.continues hc (ConnStage.handshaking_of_answeredBy hsource) with
    ⟨conn, hconn, -, -, -, hack⟩ | ⟨-, -, hstage⟩
  · rcases hack source hsource with hack | ⟨a, p, rfl, hread, ht, hlook⟩
    · exact ha c conn source hconn hack
    · have hholder := (prompt_recv hread (Or.inl ht)).mp hok
      exact (h.toHolder_iff hlook hholder.1).mp hholder
  · simp [hstage, ConnStage.answeredBy] at hsource

theorem addressed_of_reach {owner : τ → Nat}
    (hr : Reach (client rs pc) (fun s e => Unheld s e ∧ Prompt owner s e) s) :
    s.Addressed owner := by
  induction hr with
  | init =>
    intro c conn source hc
    simp [client] at hc
  | step hr' hok hs ih =>
    obtain ⟨⟨_, out⟩, hstep, rfl⟩ := Option.map_eq_some_iff.mp hs
    have hapart := apart_of_reach (hr'.mono fun _ _ hboth => hboth.1)
    exact ih.step hapart hok.2 (step_moved hstep)

end Client

/-- **Unique StreamIDs.** As long as every StreamID is handed out when no connection with it is in
its handshake, no two live connections hold the same one. An entry of `pendingConnects` under the
StreamID of a live connection is its own, and a session is registered where the table has none. The
condition cannot be weakened: the step that breaks it makes two connections share a StreamID.

As long as no answer to an earlier holder arrives while a later one waits, an entry of
`pendingConnects` is consumed, overwritten or deleted only by an answer to its connection or by that
connection itself, and a CONN_ACK that a connection has been given is its own. This condition cannot
be weakened either: an answer that finds an entry takes it, and breaks the condition exactly when
the entry is that of another connection. -/
theorem streamIDs_unique {rs : ReedSolomon} {pc : PepConfig} {s : Client τ} (owner : τ → Nat)
    (hr : Reach (client rs pc) Unheld s) :
    s.Unique ∧
    (∀ c conn, s.conns[c]? = some conn → conn.stage.live = true →
      ∀ c', s.pendingConnects.lookup conn.streamID = some c' → c' = c) ∧
    (∀ (c : Nat) (conn : Conn τ) (source : τ), s.conns[c]? = some conn →
      conn.stage = .succeeded source → s.sessions.lookup conn.streamID = none) ∧
    (∀ e s', (client rs pc).step s e = some s' → (s'.Unique ↔ Unheld s e)) ∧
    (∀ e s', (client rs pc).step s e = some s' → Prompt owner s e →
      ∀ id c, s.pendingConnects.lookup id = some c →
        s'.pendingConnects.lookup id = some c ∨ e.belongsTo owner c) ∧
    (Reach (client rs pc) (fun s e => Unheld s e ∧ Prompt owner s e) s →
      ∀ (c : Nat) (conn : Conn τ) (source : τ), s.conns[c]? = some conn →
        conn.stage.answeredBy = some source → owner source = c) ∧
    ∀ source a p s', (client rs pc).step s (.recv source a) = some s' → readUDP a = .ok p →
      p.type = .connAck ∨ p.type = .connErr →
      (s.conns[owner source]?).map Conn.streamID = some p.streamID →
      ∀ c, s.pendingConnects.lookup p.streamID = some c →
        s'.pendingConnects.lookup p.streamID = none ∧
          (Prompt owner s (.recv source a) ↔ owner source = c) := by
  have hapart := Client.apart_of_reach hr
  have h := hapart.separate
  refine ⟨h.uniqueLive, fun c conn hc hl c' hlook => hapart.own hc hl hlook, ?_, ?_, ?_,
    Client.addressed_of_reach, ?_⟩
  · intro c conn source hc hstage
    exact h.unstored c _ ⟨conn, hc, rfl, by simp [hstage, ConnStage.handshaking]⟩
  · intro e s' hs
    obtain ⟨⟨_, out⟩, hstep, rfl⟩ := Option.map_eq_some_iff.mp hs
    refine ⟨fun hu => ?_, fun hok => (h.step hok hstep).uniqueLive⟩
    cases Client.step_moved hstep with
    | exhausted dest lastID hsearch =>
      intro id hid
      simp [Client.nextStreamID, hsearch] at hid
    | accept dest lastID streamID hsearch =>
      intro id hid conn hmem hconn
      obtain rfl : streamID = id := by simpa [Client.nextStreamID, hsearch] using hid
      obtain ⟨i, hi⟩ := List.mem_iff_getElem?.mp hmem
      have hlt := (List.getElem?_eq_some_iff.mp hi).1
      -- the new connection and the old one would share the StreamID
      refine Bool.eq_false_iff.mpr fun hh => ?_
      have heq := hu i s.conns.length conn ⟨dest, streamID, .allocated⟩
        (by rw [List.getElem?_append_left hlt, hi]) List.getElem?_concat_length
        (by cases hstage : conn.stage <;> simp_all [ConnStage.live, ConnStage.handshaking]) rfl
        hconn
      omega
    | _ => trivial
  · intro e s' hs hok id c hc
    obtain ⟨⟨_, out⟩, hstep, rfl⟩ := Option.map_eq_some_iff.mp hs
    exact hapart.entry (Client.step_moved hstep) hok hc
  · intro source a p s' hs hread ht howner c hc
    obtain ⟨⟨_, out⟩, hstep, rfl⟩ := Option.map_eq_some_iff.mp hs
    refine ⟨Client.recv_answer hstep hread ht hc, ?_⟩
    rw [Client.prompt_recv hread ht]
    exact hapart.toHolder_iff hc howner

/-- The first of two connections has been answered and has its session. -/
theorem streamIDs_unique_small :
    ∃ s : Client Nat, Reach (client reedSolomonTwoOne smallPep) Unheld s ∧
      s.conns.map (fun conn => (conn.streamID, conn.stage.live)) = [(1, true), (2, true)] ∧
      s.Unique ∧
      ∀ (c : Nat) (conn : Conn Nat) (source : Nat), s.conns[c]? = some conn →
        conn.stage.answeredBy = some source → source = c := by
  obtain ⟨s, hr, hconns⟩ : ∃ s : Client Nat,
      Reach (client reedSolomonTwoOne smallPep) (fun s e => Unheld s e ∧ Prompt id s e) s ∧
        s.conns.map (fun conn => (conn.streamID, conn.stage.live)) = [(1, true), (2, true)] :=
    Reach.exists_of_runOk _ [.accept [65], .conn 0 .openChannel, .conn 0 .send, .accept [66],
      .conn 1 .openChannel, .recv 0 [0x10, 1], .conn 0 .take, .conn 0 .register,
      .recv 1 [0x10, 2]] (by decide +kernel)
  have hunheld := hr.mono fun _ _ hboth => hboth.1
  obtain ⟨hunique, -, -, -, -, hsource, -⟩ := streamIDs_unique id hunheld
  exact ⟨s, hunheld, hconns, hunique, hsource hr⟩

/-! ## A StreamID handed out twice -/

/-- Connection 0 waits for its CONN_ACK with StreamID 1, and `k` connections have been given
the StreamIDs up to `k`. -/
structure Crowded (k : Nat) (s : Client Unit) : Prop where
  lastID : s.lastID = UInt16.ofNat k
  sessions : isEmpty s.sessions = true
  conns : s.conns.length = k
  first : s.conns[0]? = some ⟨[65], 1, .waiting none⟩

section Crowded

variable {k : Nat} {s : Client Unit}

theorem crowded_one :
    ∃ s : Client Unit, Reach (client reedSolomonTwoOne smallPep) (fun _ _ => True) s ∧
    Crowded 1 s := by
  refine ⟨_, (Reach.init.step (e := .accept [65]) trivial rfl).step
    (e := .conn 0 .openChannel) trivial rfl, ?_⟩
  refine ⟨rfl, rfl, ?_, ?_⟩
  · show (Client.modifyStage [_] 0 _).length = 1
    simp [Client.modifyStage]
  · show (Client.modifyStage [⟨[65], 1, .allocated⟩] 0 _)[0]? = _
    rw [Client.getElem?_modifyStage]
    rfl

/-- The next StreamID goes to a connection to target 66. -/
theorem Crowded.accept (h : Crowded k s) :
    (client reedSolomonTwoOne smallPep).step s (.accept [66]) =
      some { s with lastID := UInt16.ofNat k % 4095 + 1
                    conns := s.conns ++ [⟨[66], UInt16.ofNat k % 4095 + 1, .allocated⟩] } := by
  have hsearch := getNextStreamID_of_free (lookup_of_isEmpty h.sessions (s.lastID % 4095 + 1))
  rw [h.lastID] at hsearch
  simp [client, Client.step, h.lastID, hsearch]

theorem crowded_rounds {n : Nat} (hn : n < 4095) :
    ∃ s : Client Unit, Reach (client reedSolomonTwoOne smallPep) (fun _ _ => True) s ∧
    Crowded (n + 1) s := by
  induction n with
  | zero => exact crowded_one
  | succ n ih =>
    obtain ⟨s, hr, h⟩ := ih (by omega)
    refine ⟨_, hr.step trivial h.accept, ofNat_mod_add_one hn, h.sessions, by simp [h.conns], ?_⟩
    rw [List.getElem?_append_left (by have := h.conns; omega), h.first]

end Crowded

/-- **A shared StreamID.** Connections 0 and 4095 both wait for a CONN_ACK with StreamID 1, and the
second has overwritten the channel of the first. -/
theorem streamID_shared :
    ∃ s : Client Unit, Reach (client reedSolomonTwoOne smallPep) (fun _ _ => True) s ∧
      s.conns[0]? = some ⟨[65], 1, .waiting none⟩ ∧ s.conns[4095]? = some ⟨[66], 1, .waiting none⟩ ∧
      s.pendingConnects.lookup 1 = some 4095 := by
  obtain ⟨s, hr, h⟩ := crowded_rounds (n := 4094) (by decide)
  have hlen : s.conns.length = 4095 := h.conns
  let conns : List (Conn Unit) := s.conns ++ [⟨[66], 1, .allocated⟩]
  have hopen : (client reedSolomonTwoOne smallPep).step { s with lastID := 1, conns }
        (.conn 4095 .openChannel) =
      some { s with lastID := 1, conns := s.conns ++ [⟨[66], 1, .waiting none⟩],
                    pendingConnects := s.pendingConnects.insert 1 4095 } := by
    have hget : conns[4095]? = some ⟨[66], 1, .allocated⟩ := by
      rw [← hlen, List.getElem?_concat_length]
    have hset := Client.modifyStage_concat s.conns ⟨[66], 1, .allocated⟩ fun _ => .waiting none
    rw [hlen] at hset
    simp [client, Client.step, Client.connStep, hget, conns, hset]
  refine ⟨_, (hr.step trivial h.accept).step trivial hopen, ?_, ?_, ?_⟩
  · show (s.conns ++ [_])[0]? = _
    rw [List.getElem?_append_left (by omega), h.first]
  · show (s.conns ++ [_])[4095]? = _
    rw [← hlen, List.getElem?_concat_length]
  · simp

end TcpPep
