import TcpPep.Proxy.Download

/-!
The demultiplexers keep reading.

Each PEP has one `udpDemuxLoop`. For a packet of a session it leaves its read, runs the handler,
which may have a part after its lock, and comes back; everything else goes on meanwhile. A loop that
cannot go on there, or that forgets the rest of a handler, would block every stream of the PEP.

* `Desk`, `Attends`: what the two loops have in common: the session that is attended to, and the
  handler that each session has under way;
* `Tended`: only the session at the desk has a handler under way;
* `Server.step_attends`, `Client.step_attends`: every step of either PEP is one of these;
* `demux_live`: a loop that is not reading can take a step that brings it closer to its read,
  whatever the others did, and the channel that a handshake waits on is empty when the client's loop
  writes to it.
-/

namespace TcpPep

open Protocol Fec FiniteMap Events

/-! ## A loop and the handlers -/

section Desk

variable {κ : Type}

/-- What a demultiplexer's loop is doing. -/
inductive Desk (κ : Type) where
  | read
  | found (k : κ)
  | handler (k : κ)
  | reset

/-- The steps until the next read. -/
def Desk.left : Desk κ → Nat
  | .read => 0
  | .found _ => 2
  | .handler _ | .reset => 1

/-- What a step of a PEP can do to its loop and to the handlers of its sessions; `h k` is the
handler that session `k` has under way. -/
inductive Attends (h h' : κ → Option Demux) : Desk κ → Desk κ → Prop
  /-- a step of somebody else; a session may be new -/
  | others (desk : Desk κ) (hk : ∀ k, h' k = h k ∨ h k = none ∧ h' k = some .idle) :
      Attends h h' desk desk
  | find (k : κ) (hk : h k ≠ none) (hsame : h' = h) : Attends h h' .read (.found k)
  /-- the handler is through, or has a rest that the loop turns to -/
  | dispatch (k : κ) (d : Demux) (desk : Desk κ) (hothers : ∀ j, j ≠ k → h' j = h j)
      (hk : h' k = some d) (hdesk : desk = .handler k ∧ d ≠ .idle ∨ (desk = .read ∨ desk = .reset) ∧
        (d = .idle ∨ h k = some d)) :
      Attends h h' (.found k) desk
  | finish (k : κ) (hothers : ∀ j, j ≠ k → h' j = h j) (hk : h' k = (h k).map fun _ => .idle) :
      Attends h h' (.handler k) .read
  | delete (hsame : h' = h) : Attends h h' .reset .read

theorem Attends.kept {h h' : κ → Option Demux} {desk desk' : Desk κ} (ha : Attends h h' desk desk')
    {k : κ} (hk : h k ≠ none) : h' k ≠ none := by
  cases ha with
  | others desk hk' =>
    rcases hk' k with hsame | ⟨-, hnew⟩
    · rwa [hsame]
    · simp [hnew]
  | find j hj hsame => rwa [hsame]
  | dispatch j d desk hothers hd hdesk =>
    by_cases hkj : k = j
    · subst hkj
      simp [hd]
    · rwa [hothers k hkj]
  | finish j hothers hj =>
    by_cases hkj : k = j
    · subst hkj
      simpa [hj] using hk
    · rwa [hothers k hkj]
  | delete hsame => rwa [hsame]

/-- Only the session at the desk has a handler under way. -/
structure Tended (h : κ → Option Demux) (desk : Desk κ) : Prop where
  found : ∀ k, desk = .found k → h k ≠ none
  handler : ∀ k, desk = .handler k → ∃ d, h k = some d ∧ d ≠ .idle
  only : ∀ k d, h k = some d → d ≠ .idle → desk = .handler k

theorem Tended.step {h h' : κ → Option Demux} {desk desk' : Desk κ} (ht : Tended h desk)
    (ha : Attends h h' desk desk') : Tended h' desk' := by
  cases ha with
  | others desk hk =>
    refine ⟨?_, ?_, ?_⟩
    · intro k hdesk
      rcases hk k with hsame | ⟨-, hnew⟩
      · rw [hsame]
        exact ht.found k hdesk
      · simp [hnew]
    · intro k hdesk
      obtain ⟨d, hd, hne⟩ := ht.handler k hdesk
      rcases hk k with hsame | ⟨hnone, -⟩
      · exact ⟨d, hsame.trans hd, hne⟩
      · simp [hnone] at hd
    · intro k d hd hne
      rcases hk k with hsame | ⟨-, hnew⟩
      · exact ht.only k d (hsame ▸ hd) hne
      · exact absurd (Option.some.inj (hd.symm.trans hnew)) hne
  | find k hk hsame =>
    subst hsame
    refine ⟨?_, ?_, ?_⟩
    · rintro j ⟨⟩
      exact hk
    · rintro j ⟨⟩
    · intro j d hd hne
      cases ht.only j d hd hne
  | dispatch k d desk hothers hk hdesk =>
    -- nobody had a handler under way
    have hidle : ∀ j d, h j = some d → d = .idle := by
      intro j d hd
      by_contra hne
      cases ht.only j d hd hne
    refine ⟨?_, ?_, ?_⟩
    · rintro j rfl
      simp at hdesk
    · rintro j rfl
      simp only [Desk.handler.injEq, reduceCtorEq, or_self, false_and, or_false] at hdesk
      obtain ⟨rfl, hne⟩ := hdesk
      exact ⟨d, hk, hne⟩
    · intro j d' hd' hne'
      by_cases hj : j = k
      · subst hj
        obtain rfl := Option.some.inj (hd'.symm.trans hk)
        rcases hdesk with ⟨rfl, -⟩ | ⟨-, rfl | hold⟩
        · rfl
        · exact absurd rfl hne'
        · exact absurd (hidle j d' hold) hne'
      · rw [hothers j hj] at hd'
        exact absurd (hidle j d' hd') hne'
  | finish k hothers hk =>
    refine ⟨?_, ?_, ?_⟩
    · rintro j ⟨⟩
    · rintro j ⟨⟩
    · intro j d hd hne
      by_cases hj : j = k
      · subst hj
        obtain ⟨-, -, rfl⟩ := Option.map_eq_some_iff.mp (hk.symm.trans hd)
        exact absurd rfl hne
      · rw [hothers j hj] at hd
        cases ht.only j d hd hne
        exact absurd rfl hj
  | delete hsame =>
    subst hsame
    refine ⟨?_, ?_, ?_⟩
    · rintro j ⟨⟩
    · rintro j ⟨⟩
    · intro j d hd hne
      cases ht.only j d hd hne

end Desk

/-! ## What a session's own steps do to its handler -/

namespace Session

variable {rs : ReedSolomon} {cfg : Config} {s s' : Session} {e : SessionEvent} {out : List Bytes}

theorem own_demux (hs : s.step rs cfg e = some (s', out)) (hown : e.isOwn = true) :
    s'.demux = s.demux := by
  cases stepped_of_step hs with
  | recv | finishHandler | cancel => cases hown
  | _ => rfl

theorem finishHandler_demux : s.finishHandler.demux = .idle := by
  unfold finishHandler
  split
  · assumption
  · rfl
  · simp only
    split <;> rfl

theorem handle_reset_demux {p : Packet} (ht : p.type = .reset) :
    (s.handle rs cfg p).demux = s.demux := by
  unfold handle
  rw [ht]
  rfl

end Session

/-! ## The server -/

variable {α : Type}

/-- The handler that session `i` has under way. -/
def Stream.handlerAt (st : Stream α) (i : Nat) : Option Demux := (st.served[i]?).map fun o =>
    o.session.demux

namespace Stream

variable {rs : ReedSolomon} {pc : PepConfig} {id : UInt16} {st st' : Stream α}
  {out : List (Reply α)}

theorem handlerAt_update (i j : Nat) (f : Session → Session) :
    (st.update i f).handlerAt j =
      if i = j then (st.served[j]?).map fun o => (f o.session).demux else st.handlerAt j := by
  simp only [handlerAt, update, List.getElem?_modify]
  split
  · simp [Function.comp_def]
  · simp

theorem handlerAt_closeCurrent (j : Nat) : st.closeCurrent.handlerAt j = st.handlerAt j := by
  unfold closeCurrent
  split
  · rw [handlerAt_update]
    split <;> rfl
  · rfl

/-- A look-up may start a `handleConnect` and leaves the sessions alone. -/
theorem lookup_frame (st : Stream α) (rAddr : α) (p : Packet) :
    (st.lookup rAddr p).2.current = st.current ∧ (st.lookup rAddr p).2.served = st.served := by
  unfold lookup
  split
  · exact ⟨rfl, rfl⟩
  · split <;> exact ⟨rfl, rfl⟩

/-- A step of a goroutine adds a session at most. -/
theorem Moved.handlerAt {ev : StreamEvent} (hm : Moved rs pc id st ev st' out) (i : Nat) :
    st'.handlerAt i = st.handlerAt i ∨ st.handlerAt i = none ∧ st'.handlerAt i = some .idle := by
  cases hm with
  | dialOk | dialFail | sendAck => exact Or.inl rfl
  | register k dest clientAddr hk =>
    rcases Nat.lt_trichotomy i st.served.length with hlt | heq | hgt
    · refine Or.inl (Eq.trans ?_ (handlerAt_closeCurrent i))
      simp only [Stream.handlerAt]
      rw [List.getElem?_append_left (by simpa using hlt)]
    · refine Or.inr ⟨by simp [Stream.handlerAt, heq], ?_⟩
      simp only [Stream.handlerAt, heq]
      rw [← st.length_closeCurrent_served, List.getElem?_concat_length]
      rfl
    · refine Or.inl ?_
      simp only [Stream.handlerAt]
      rw [List.getElem?_eq_none (by simp; omega), List.getElem?_eq_none (by omega)]
  | act j e o session sent ho hown hs =>
    refine Or.inl ?_
    rw [handlerAt_update]
    split
    · rename_i hji
      subst hji
      simp [Stream.handlerAt, ho, Session.own_demux hs hown]
    · rfl
  | cleanup j hj => exact Or.inl (handlerAt_closeCurrent i)

end Stream

namespace Server

variable {rs : ReedSolomon} {pc : PepConfig} {s s' : Server α} {e : ServerEvent α}
  {out : List (Reply α)}

def handlerAt (s : Server α) (k : UInt16 × Nat) : Option Demux := (s.stream k.1).handlerAt k.2

def desk (s : Server α) : Desk (UInt16 × Nat) :=
  match s.loop with
  | .read => .read
  | .found p _ i => .found (p.streamID, i)
  | .handler id i => .handler (id, i)
  | .reset _ => .reset

theorem handlerAt_set (s : Server α) (id : UInt16) (loop : DemuxLoop α) (st : Stream α)
    (k : UInt16 × Nat) :
    (s.set id loop st).handlerAt k = if k.1 = id then st.handlerAt k.2 else s.handlerAt k := by
  by_cases hk : k.1 = id
  · simp [handlerAt, set, hk]
  · simp [handlerAt, set, hk]

theorem handlerAt_set_of_eq {id : UInt16} {loop : DemuxLoop α} {st : Stream α}
    (h : ∀ i, st.handlerAt i = (s.stream id).handlerAt i) :
    (s.set id loop st).handlerAt = s.handlerAt := by
  funext k
  rw [handlerAt_set]
  split
  · rename_i hk
    rw [h, handlerAt, hk]
  · rfl

theorem handlerAt_update {id : UInt16} {i : Nat} {f : Session → Session} {loop : DemuxLoop α}
    {k : UInt16 × Nat} (hk : k ≠ (id, i)) :
    (s.set id loop ((s.stream id).update i f)).handlerAt k = s.handlerAt k := by
  rw [handlerAt_set]
  split
  · rename_i hid
    rw [Stream.handlerAt_update, if_neg, handlerAt, hid]
    rintro rfl
    exact hk (Prod.ext hid rfl)
  · rfl

theorem handlerAt_update_self {id : UInt16} {i : Nat} {f : Session → Session} {loop : DemuxLoop α}
    {o : Served α} (ho : (s.stream id).served[i]? = some o) :
    (s.set id loop ((s.stream id).update i f)).handlerAt (id, i) = some (f o.session).demux := by
  rw [handlerAt_set, if_pos rfl, Stream.handlerAt_update, if_pos rfl, ho]
  rfl

theorem demux_attends {id : UInt16} {ev : DemuxEvent} {loop : DemuxLoop α} {st : Stream α}
    (hs : (s.stream id).demux rs pc id s.loop ev = some (loop, st, out)) :
    Attends s.handlerAt (s.set id loop st).handlerAt s.desk (s.set id loop st).desk := by
  cases ev with
  | dispatch =>
    simp only [Stream.demux] at hs
    split at hs
    · rename_i p rAddr i hloop
      split at hs
      · rename_i o ho
        split at hs
        · rename_i hid
          subst hid
          have hdesk : s.desk = .found (p.streamID, i) := by simp [desk, hloop]
          have hold : s.handlerAt (p.streamID, i) = some o.session.demux := by
            simp [handlerAt, Stream.handlerAt, ho]
          rw [hdesk]
          split at hs
          · -- a CONNECT is answered and changes nothing
            cases hs
            have hsame : (s.set p.streamID .read (s.stream p.streamID)).handlerAt = s.handlerAt :=
              handlerAt_set_of_eq fun _ => rfl
            rw [hsame]
            exact .dispatch _ _ _ (fun _ _ => rfl) hold (Or.inr ⟨Or.inl rfl, Or.inr hold⟩)
          · split at hs
            · rename_i ht
              cases hs
              refine .dispatch _ _ _ (fun _ => handlerAt_update) (handlerAt_update_self ho)
                (Or.inr ⟨Or.inr rfl, Or.inr ?_⟩)
              rw [hold, Session.handle_reset_demux ht]
            · split at hs
              · rename_i hidle
                cases hs
                exact .dispatch _ _ _ (fun _ => handlerAt_update) (handlerAt_update_self ho)
                  (Or.inr ⟨Or.inl rfl, Or.inl hidle⟩)
              · rename_i hidle
                cases hs
                exact .dispatch _ _ _ (fun _ => handlerAt_update) (handlerAt_update_self ho)
                  (Or.inl ⟨rfl, hidle⟩)
        · cases hs
      · cases hs
    · cases hs
  | finish =>
    simp only [Stream.demux] at hs
    split at hs
    · rename_i id' i hloop
      simp only [Option.ite_none_right_eq_some, Option.some.injEq, Prod.mk.injEq] at hs
      obtain ⟨rfl, rfl, rfl, rfl⟩ := hs
      have hdesk : s.desk = .handler (id', i) := by simp [desk, hloop]
      rw [hdesk]
      refine .finish (id', i) (fun _ => handlerAt_update) ?_
      rw [handlerAt_set, if_pos rfl, Stream.handlerAt_update, if_pos rfl]
      simp [handlerAt, Stream.handlerAt, Session.finishHandler_demux, Function.comp_def]
    · cases hs
  | delete =>
    simp only [Stream.demux] at hs
    split at hs
    · rename_i id' hloop
      simp only [Option.ite_none_right_eq_some, Option.some.injEq, Prod.mk.injEq] at hs
      obtain ⟨rfl, rfl, rfl, rfl⟩ := hs
      have hdesk : s.desk = .reset := by simp [desk, hloop]
      rw [hdesk]
      exact .delete (handlerAt_set_of_eq fun _ => rfl)
    · cases hs

/-- Every entry of the table is a session that was made. -/
def Listed (s : Server α) : Prop := ∀ id i, (s.stream id).current = some i →
    i < (s.stream id).served.length

theorem Listed.step (h : s.Listed) (hs : s.step rs pc e = some (s', out)) : s'.Listed := by
  refine fun id => Server.step_stream (P := fun _ st => ∀ i, st.current = some i →
    i < st.served.length) hs ?_ ?_ ?_
    (fun id => h id) id
  · intro rAddr a p _ _ hst i hi
    obtain ⟨hcur, hserved⟩ := (s.stream p.streamID).lookup_frame rAddr p
    rw [hserved]
    exact hst i (hcur ▸ hi)
  · intro id loop loop' st st' out hh hst
    cases hh with
    | reack => exact hst
    | handle | finish =>
      intro i hi
      rw [Stream.length_update_served]
      exact hst i hi
    | delete => simp
  · intro id ev st st' out hm hst
    cases hm with
    | dialOk | dialFail | sendAck => exact hst
    | register =>
      rintro i ⟨⟩
      simp
    | act =>
      intro i hi
      rw [Stream.length_update_served]
      exact hst i hi
    | cleanup => simp

theorem step_attends (hlist : s.Listed) (hs : s.step rs pc e = some (s', out)) :
    Attends s.handlerAt s'.handlerAt s.desk s'.desk := by
  rcases Server.step_cases hs with ⟨rAddr, a, err, -, -, -, rfl, -⟩ |
    ⟨rAddr, a, p, -, -, hloop, -, rfl⟩ |
    ⟨id, ev, loop, st, -, hev, rfl⟩ | ⟨id, ev, st, -, hev, rfl⟩
  · exact .others _ fun _ => Or.inl rfl
  · have hread : s.desk = .read := by simp [desk, hloop]
    cases hcur : (s.stream p.streamID).current with
    | some i =>
      have hfound : (s.stream p.streamID).lookup rAddr p = (.found p rAddr i,
          s.stream p.streamID) := by
        simp [Stream.lookup, hcur]
      rw [hfound, hread]
      refine .find (p.streamID, i) ?_ (handlerAt_set_of_eq fun _ => rfl)
      have hlt := hlist p.streamID i hcur
      simp [handlerAt, Stream.handlerAt, hlt]
    | none =>
      have hstay : ((s.stream p.streamID).lookup rAddr p).1 = .read := by
        simp only [Stream.lookup, hcur]
        split <;> rfl
      have hserved := ((s.stream p.streamID).lookup_frame rAddr p).2
      have hdesk : (s.set p.streamID ((s.stream p.streamID).lookup rAddr p).1
          ((s.stream p.streamID).lookup rAddr p).2).desk = .read := by simp [desk, set, hstay]
      rw [hread, hdesk, handlerAt_set_of_eq fun i => by
        rw [Stream.handlerAt, hserved, Stream.handlerAt]]
      exact .others _ fun _ => Or.inl rfl
  · exact demux_attends hev
  · refine .others _ fun k => ?_
    rw [handlerAt_set]
    split
    · rename_i hk
      rw [handlerAt, hk]
      exact (Stream.step_moved hev).handlerAt k.2
    · exact Or.inl rfl

theorem desk_progress (ht : Tended s.handlerAt s.desk) (hloop : s.loop ≠ .read) :
    ∃ id ev s' out, s.step rs pc (.demux id ev) = some (s', out) ∧ s'.desk.left < s.desk.left := by
  cases hl : s.loop with
  | read => exact absurd hl hloop
  | found p rAddr i =>
    obtain ⟨d, hd⟩ := Option.ne_none_iff_exists'.mp (ht.found (p.streamID, i) (by simp [desk, hl]))
    obtain ⟨o, ho, -⟩ := Option.map_eq_some_iff.mp hd
    obtain ⟨loop, st, out, hdemux, hend⟩ : ∃ loop st out,
        (s.stream p.streamID).demux rs pc p.streamID s.loop .dispatch = some (loop, st, out) ∧
          (loop = .read ∨ loop = .reset p.streamID ∨ loop = .handler p.streamID i) := by
      simp only [Stream.demux, hl, ho, if_true]
      split
      · exact ⟨_, _, _, rfl, Or.inl rfl⟩
      · split
        · exact ⟨_, _, _, rfl, Or.inr (Or.inl rfl)⟩
        · split
          · exact ⟨_, _, _, rfl, Or.inl rfl⟩
          · exact ⟨_, _, _, rfl, Or.inr (Or.inr rfl)⟩
    refine ⟨p.streamID, .dispatch, s.set p.streamID loop st, out, by simp [step, hdemux], ?_⟩
    rcases hend with rfl | rfl | rfl <;> simp [desk, set, hl, Desk.left]
  | handler id i =>
    refine ⟨id, .finish, s.set id .read ((s.stream id).update i Session.finishHandler), [], ?_, ?_⟩
    · simp [step, Stream.demux, hl]
    · simp [desk, set, hl, Desk.left]
  | reset id =>
    refine ⟨id, .delete, s.set id .read { s.stream id with current := none }, [], ?_, ?_⟩
    · simp [step, Stream.demux, hl]
    · simp [desk, set, hl, Desk.left]

end Server

theorem server_tended {rs : ReedSolomon} {pc : PepConfig} {ok : Server α → ServerEvent α → Prop}
    {s : Server α} (hr : Reach (server rs pc) ok s) : s.Listed ∧ Tended s.handlerAt s.desk := by
  induction hr with
  | init =>
    constructor
    · intro id i hi
      cases hi
    · exact ⟨by simp [server, Server.desk], by simp [server, Server.desk],
        by simp [server, Server.handlerAt, Stream.handlerAt]⟩
  | step _ _ hs ih =>
    obtain ⟨⟨_, out⟩, hs', rfl⟩ := Option.map_eq_some_iff.mp hs
    exact ⟨ih.1.step hs', ih.2.step (Server.step_attends ih.1 hs')⟩

/-! ## The client -/

variable {τ : Type}

def ConnStage.handler : ConnStage τ → Option Demux
  | .established session => some session.demux
  | _ => none

theorem ConnStage.handler_answer (r : Except Bytes τ) (stage : ConnStage τ) :
    (stage.answer r).handler = stage.handler := by
  unfold answer
  split <;> rfl

theorem ConnStage.handler_mapSession {f : Session → Session}
    (hf : ∀ session, (f session).demux = session.demux) (stage : ConnStage τ) :
    (stage.mapSession f).handler = stage.handler := by
  unfold mapSession
  split
  · exact congrArg some (hf _)
  · rfl

theorem ConnStage.handler_finish (stage : ConnStage τ) :
    (stage.mapSession Session.finishHandler).handler = stage.handler.map fun _ => .idle := by
  cases stage with
  | established session => exact congrArg some Session.finishHandler_demux
  | _ => rfl

namespace Client

variable {rs : ReedSolomon} {pc : PepConfig} {s s' : Client τ} {e : ClientEvent τ}
  {out : List (Nat × Bytes)}

/-- The handler that the session of connection `c` has under way. -/
def handlerAt (s : Client τ) (c : Nat) : Option Demux := (s.conns[c]?).bind fun conn =>
    conn.stage.handler

def desk (s : Client τ) : Desk Nat :=
  match s.loop with
  | .read => .read
  | .found _ _ c => .found c
  | .handler _ c => .handler c
  | .reset _ => .reset

theorem handlerAt_modifyStage {c : Nat} {f : ConnStage τ → ConnStage τ}
    (hs : s'.conns = modifyStage s.conns c f) (i : Nat) :
    s'.handlerAt i = if c = i then (s.conns[i]?).bind fun conn =>
    (f conn.stage).handler else s.handlerAt i := by
  simp only [handlerAt, hs, getElem?_modifyStage]
  split
  · rw [Option.bind_map]
    rfl
  · rfl

theorem handlerAt_of_same {c : Nat} {f : ConnStage τ → ConnStage τ}
    (hs : s'.conns = modifyStage s.conns c f) (hf : ∀ conn, s.conns[c]? = some conn →
      (f conn.stage).handler = conn.stage.handler) :
    s'.handlerAt = s.handlerAt := by
  funext i
  rw [handlerAt_modifyStage hs]
  split
  · rename_i hci
    subst hci
    rw [handlerAt]
    cases hc : s.conns[c]? with
    | none => rfl
    | some conn => exact hf conn hc
  · rfl

/-- Every entry of the table is an established connection. -/
def Listed (s : Client τ) : Prop := ∀ id c, s.sessions.lookup id = some c → s.handlerAt c ≠ none

theorem handlerAt_of_conn {c : Nat} {conn : Conn τ} {f : ConnStage τ → ConnStage τ}
    (hc : s.conns[c]? = some conn) (hs : s'.conns = modifyStage s.conns c f)
    (hf : (f conn.stage).handler = conn.stage.handler) :
    s'.handlerAt = s.handlerAt := by
  refine handlerAt_of_same hs fun conn' hc' => ?_
  obtain rfl := Option.some.inj (hc.symm.trans hc')
  exact hf

/-- The steps of a connection: its session may be new. -/
theorem conn_handlerAt {c : Nat} {ev : ConnEvent}
    (hs : s.step rs pc (.conn c ev) = some (s', out)) :
    s'.handlerAt = s.handlerAt ∨
      s.handlerAt c = none ∧ s'.handlerAt c = some .idle ∧ ∀ i, i ≠ c →
      s'.handlerAt i = s.handlerAt i := by
  cases hm : step_moved hs with
  | openChannel _ conn hc hstage => exact Or.inl (handlerAt_of_conn hc rfl (by rw [hstage]; rfl))
  | send => exact Or.inl rfl
  | take _ conn source hc hstage => exact Or.inl (handlerAt_of_conn hc rfl (by rw [hstage]; rfl))
  | refused _ conn msg hc hstage => exact Or.inl (handlerAt_of_conn hc rfl (by rw [hstage]; rfl))
  | abandon _ conn reply _ hc hstage he =>
    exact Or.inl (handlerAt_of_conn hc rfl (by rw [hstage]; rfl))
  | register _ conn source hc hstage =>
    refine Or.inr ⟨by simp [handlerAt, hc, hstage, ConnStage.handler], ?_, ?_⟩
    · rw [handlerAt_modifyStage rfl, if_pos rfl, hc]
      rfl
    · intro i hi
      rw [handlerAt_modifyStage rfl, if_neg fun h => hi h.symm]
  | act _ conn session e session' sent hc hstage hses =>
    refine Or.inl (handlerAt_of_conn hc rfl ?_)
    rw [hstage]
    exact congrArg some (Session.own_demux hses (step_act_isOwn hc hstage hs))

theorem demux_attends {ev : DemuxEvent} (hs : s.demux rs pc ev = some s') :
    Attends s.handlerAt s'.handlerAt s.desk s'.desk := by
  cases ev with
  | dispatch =>
    simp only [demux] at hs
    split at hs
    · rename_i p source c hloop
      split at hs
      · rename_i dest streamID session hc
        cases hs
        have hdesk : s.desk = .found c := by simp [desk, hloop]
        have hold : s.handlerAt c = some session.demux := by simp [handlerAt, hc, ConnStage.handler]
        rw [hdesk]
        refine .dispatch c (session.handle rs (pc.session streamID) p).demux _ ?_ ?_ ?_
        · intro i hi
          rw [handlerAt_modifyStage rfl, if_neg fun h => hi h.symm]
        · rw [handlerAt_modifyStage rfl, if_pos rfl, hc]
          rfl
        · by_cases ht : p.type = .reset
          · refine Or.inr ⟨Or.inr (by simp [desk, ht]), Or.inr ?_⟩
            rw [hold, Session.handle_reset_demux ht]
          · by_cases hidle : (session.handle rs (pc.session streamID) p).demux = .idle
            · exact Or.inr ⟨Or.inl (by simp [desk, ht, hidle]), Or.inl hidle⟩
            · exact Or.inl ⟨by simp [desk, ht, hidle], hidle⟩
      · cases hs
    · cases hs
  | finish =>
    simp only [demux] at hs
    split at hs
    · rename_i id c hloop
      cases hs
      have hdesk : s.desk = .handler c := by simp [desk, hloop]
      rw [hdesk]
      refine .finish c ?_ ?_
      · intro i hi
        rw [handlerAt_modifyStage rfl, if_neg fun h => hi h.symm]
      · rw [handlerAt_modifyStage rfl, if_pos rfl, handlerAt]
        cases s.conns[c]? with
        | none => rfl
        | some conn => exact ConnStage.handler_finish conn.stage
    · cases hs
  | delete =>
    simp only [demux] at hs
    split at hs
    · rename_i id hloop
      cases hs
      have hdesk : s.desk = .reset := by simp [desk, hloop]
      rw [hdesk]
      exact .delete rfl
    · cases hs

theorem handlerAt_concat {conn : Conn τ} (hs : s'.conns = s.conns ++ [conn])
    (hstage : conn.stage.handler = none) :
    s'.handlerAt = s.handlerAt := by
  funext i
  simp only [handlerAt, hs]
  rcases Nat.lt_trichotomy i s.conns.length with hlt | heq | hgt
  · rw [List.getElem?_append_left hlt]
  · subst heq
    rw [List.getElem?_concat_length, List.getElem?_eq_none (Nat.le_refl _)]
    exact hstage
  · rw [List.getElem?_eq_none (by simp; omega), List.getElem?_eq_none (by omega)]

theorem step_attends (hlist : s.Listed) (hs : s.step rs pc e = some (s', out)) :
    Attends s.handlerAt s'.handlerAt s.desk s'.desk := by
  have hothers : s'.loop = s.loop → s'.handlerAt = s.handlerAt →
      Attends s.handlerAt s'.handlerAt s.desk s'.desk := by
    intro hloop hsame
    rw [desk, desk, hloop, hsame]
    exact .others _ fun _ => Or.inl rfl
  cases e with
  | accept dest =>
    cases step_moved hs with
    | exhausted => exact hothers rfl rfl
    | accept _ lastID streamID h => exact hothers rfl (handlerAt_concat rfl rfl)
  | conn c ev =>
    have hloop : s'.loop = s.loop := by
      cases step_moved hs <;> rfl
    rcases conn_handlerAt hs with hsame | ⟨hnone, hnew, hrest⟩
    · exact hothers hloop hsame
    · rw [desk, desk, hloop]
      refine .others _ fun i => ?_
      by_cases hi : i = c
      · subst hi
        exact Or.inr ⟨hnone, hnew⟩
      · exact Or.inl (hrest i hi)
  | recv source a =>
    simp only [step] at hs
    split at hs
    · rename_i hloop
      have hread : s.desk = .read := by simp [desk, hloop]
      split at hs
      · cases hs
        exact hothers rfl rfl
      · rename_i p hp
        cases hs
        unfold lookup
        split
        · split
          · exact .others _ fun i => Or.inl
              (congrFun (handlerAt_of_same rfl fun conn _ => ConnStage.handler_answer _ conn.stage)
                i)
          · exact .others _ fun _ => Or.inl rfl
        · split
          · rename_i c hc
            rw [hread]
            exact .find c (hlist p.streamID c hc) rfl
          · exact .others _ fun _ => Or.inl rfl
    · cases hs
  | demux ev =>
    simp only [step, Option.map_eq_some_iff, Prod.mk.injEq] at hs
    obtain ⟨_, hs, rfl, -⟩ := hs
    exact demux_attends hs
  | cleanup id =>
    cases step_moved hs with
    | cleanup _ c =>
      refine hothers rfl (handlerAt_of_same rfl fun conn _ => ?_)
      exact ConnStage.handler_mapSession (f := Session.close) (fun _ => rfl) conn.stage

/-- Only `register` adds to the table. -/
theorem lookup_sessions (hs : s.step rs pc e = some (s', out)) {id : UInt16} {c : Nat}
    (hc : s'.sessions.lookup id = some c) :
    s.sessions.lookup id = some c ∨ s'.handlerAt c = some .idle := by
  cases step_moved hs with
  | register c' conn source hconn hstage =>
    rw [lookup_insert_eq] at hc
    split at hc
    · cases hc
      refine Or.inr ?_
      rw [handlerAt_modifyStage rfl, if_pos rfl, hconn]
      rfl
    · exact Or.inl hc
  | delete id' =>
    rw [lookup_erase_eq] at hc
    split at hc
    · cases hc
    · exact Or.inl hc
  | cleanup id' c' =>
    rw [lookup_erase_eq] at hc
    split at hc
    · cases hc
    · exact Or.inl hc
  | _ => exact Or.inl hc

theorem Listed.step (h : s.Listed) (hs : s.step rs pc e = some (s', out)) : s'.Listed := by
  intro id c hc
  rcases lookup_sessions hs hc with hold | hnew
  · exact (step_attends h hs).kept (h id c hold)
  · simp [hnew]

theorem desk_progress (ht : Tended s.handlerAt s.desk) (hloop : s.loop ≠ .read) :
    ∃ ev s' out, s.step rs pc (.demux ev) = some (s', out) ∧ s'.desk.left < s.desk.left := by
  cases hl : s.loop with
  | read => exact absurd hl hloop
  | found p source c =>
    obtain ⟨d, hd⟩ := Option.ne_none_iff_exists'.mp (ht.found c (by simp [desk, hl]))
    obtain ⟨⟨dest, streamID, stage⟩, hc, hd⟩ := Option.bind_eq_some_iff.mp hd
    cases stage with
    | established session =>
      refine ⟨.dispatch, _, [], by simp only [step, demux, hl, hc, Option.map_some]; rfl, ?_⟩
      by_cases ht : p.type = .reset
      · simp [desk, hl, ht, Desk.left]
      · by_cases hidle : (session.handle rs (pc.session streamID) p).demux = .idle
        · simp [desk, hl, ht, hidle, Desk.left]
        · simp [desk, hl, ht, hidle, Desk.left]
    | _ => cases hd
  | handler id c =>
    refine ⟨.finish, _, [], by simp only [step, demux, hl, Option.map_some]; rfl, ?_⟩
    simp [desk, hl, Desk.left]
  | reset id =>
    refine ⟨.delete, _, [], by simp only [step, demux, hl, Option.map_some]; rfl, ?_⟩
    simp [desk, hl, Desk.left]

end Client

theorem client_tended {rs : ReedSolomon} {pc : PepConfig} {ok : Client τ → ClientEvent τ → Prop}
    {s : Client τ} (hr : Reach (client rs pc) ok s) :
    s.Listed ∧ s.Pending ∧ Tended s.handlerAt s.desk := by
  induction hr with
  | init =>
    refine ⟨?_, ?_, ?_, ?_, ?_⟩
    · simp [Client.Listed, client]
    · simp [Client.Pending, client]
    · simp [client, Client.desk]
    · simp [client, Client.desk]
    · simp [client, Client.handlerAt]
  | step _ _ hs ih =>
    obtain ⟨⟨_, out⟩, hs', rfl⟩ := Option.map_eq_some_iff.mp hs
    obtain ⟨hlist, hpend, htend⟩ := ih
    exact ⟨hlist.step hs', hpend.moved (Client.step_moved hs'),
      htend.step (Client.step_attends hlist hs')⟩

/-! ## Both -/

/-- **The demultiplexers stay live.** In every reachable state of a server and of a client, whatever
is received and however the goroutines interleave: only the session that the loop is working for has
a handler under way; a loop that is not reading has a step to take that brings it nearer to its
read, two steps away at most; nobody else moves it meanwhile; and the channel behind an entry of
`pendingConnects` is empty, so that the client's loop never blocks on it. -/
theorem demux_live (rs : ReedSolomon) (pc : PepConfig) :
    (∀ s : Server α, Reach (server rs pc) (fun _ _ => True) s →
      (∀ (id : UInt16) (i : Nat) (o : Served α), (s.stream id).served[i]? = some o →
        o.session.demux ≠ .idle → s.loop = .handler id i) ∧
      (s.loop ≠ .read →
        (∃ id ev s' out, s.step rs pc (.demux id ev) = some (s', out) ∧
          s'.desk.left < s.desk.left) ∧
        ∀ e s' out, (∀ id ev, e ≠ .demux id ev) → s.step rs pc e = some (s', out) →
        s'.loop = s.loop)) ∧
    ∀ s : Client τ, Reach (client rs pc) (fun _ _ => True) s →
      (∀ (c : Nat) (conn : Conn τ) (session : Session), s.conns[c]? = some conn →
        conn.stage = .established session → session.demux ≠ .idle → ∃ id, s.loop = .handler id c) ∧
      (s.loop ≠ .read →
        (∃ ev s' out, s.step rs pc (.demux ev) = some (s', out) ∧ s'.desk.left < s.desk.left) ∧
        ∀ e s' out, (∀ ev, e ≠ .demux ev) → s.step rs pc e = some (s', out) → s'.loop = s.loop) ∧
      ∀ (id : UInt16) (c : Nat), s.pendingConnects.lookup id = some c →
        ∃ conn, s.conns[c]? = some conn ∧ conn.stage = .waiting none := by
  constructor
  · intro s hr
    have ht := (server_tended hr).2
    refine ⟨?_, fun hloop => ⟨Server.desk_progress ht hloop, ?_⟩⟩
    · intro id i o ho hne
      have hdesk :=
        ht.only (id, i) o.session.demux (by simp [Server.handlerAt, Stream.handlerAt, ho]) hne
      unfold Server.desk at hdesk
      split at hdesk <;> simp_all
    · intro e s' out hne hs
      rcases Server.step_cases hs with ⟨_, _, _, -, -, -, rfl, -⟩ | ⟨_, _, _, -, -, hread, -, -⟩ |
        ⟨id, ev, _, _, rfl, -, -⟩ | ⟨_, _, _, -, -, rfl⟩
      · rfl
      · exact absurd hread hloop
      · exact absurd rfl (hne id ev)
      · rfl
  · intro s hr
    obtain ⟨-, hpend, ht⟩ := client_tended hr
    refine ⟨?_, fun hloop => ⟨Client.desk_progress ht hloop, ?_⟩, ?_⟩
    · intro c conn session hc hstage hne
      have hdesk :=
        ht.only c session.demux (by simp [Client.handlerAt, hc, hstage, ConnStage.handler]) hne
      unfold Client.desk at hdesk
      split at hdesk <;> simp_all
    · intro e s' out hne hs
      cases e with
      | demux ev => exact absurd rfl (hne ev)
      | recv source a =>
        simp [Client.step] at hs
      | accept dest => cases Client.step_moved hs <;> rfl
      | conn c ev => cases Client.step_moved hs <;> rfl
      | cleanup id =>
        cases Client.step_moved hs
        rfl
    · intro id c hc
      obtain ⟨conn, hconn, -, hstage⟩ := hpend id c hc
      exact ⟨conn, hconn, hstage⟩

/-- A CLOSE has come for a session of the server and its handler has a part left. -/
theorem demux_live_small :
    ∃ s : Server Nat, Reach (server reedSolomonTwoOne smallPep) (fun _ _ => True) s ∧
      s.loop = .handler 1 0 ∧ ∃ id ev s' out, s.step reedSolomonTwoOne smallPep
      (.demux id ev) = some (s', out) ∧ s'.desk.left = 0 := by
  obtain ⟨s, hr, hloop⟩ : ∃ s : Server Nat,
      Reach (server reedSolomonTwoOne smallPep) (fun _ _ => True) s ∧ s.loop = .handler 1 0 :=
    Reach.exists_of_runOk _ (establish 5001 1 65 ++
      [.recv 5001 (((sendPacketDirect { type := .close, streamID := 1 }).head?).getD []),
        .demux 1 .dispatch])
      (by decide +kernel)
  obtain ⟨⟨id, ev, s', out, hs, hlt⟩, -⟩ :=
    ((@demux_live Nat Unit reedSolomonTwoOne smallPep).1 s hr).2 (by simp [hloop])
  refine ⟨s, hr, hloop, id, ev, s', out, hs, ?_⟩
  have hleft : s.desk.left = 1 := by simp [Server.desk, hloop, Desk.left]
  omega

end TcpPep
