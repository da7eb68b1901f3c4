import TcpPep.Proxy.Registry
import TcpPep.Proxy.Idle

/-!
Shutting a server down: `Stop` of `proxy/server.go`.

`Stop` works in three sections: it sets `stopped`, cancels the context of the PEP and with it the
contexts of all sessions, and closes and forgets the sessions of the table. The other goroutines go
on in between. The demultiplexer and `cleanupLoop` return when they notice, but a `handleConnect`
notices nothing: it may register a session at any time, also after the last section.

* `Halt`, `halting`: the server with the sections of `Stop`;
* `Server.Shelved`: a session that has not been closed is the one in the table;
* `Stream.Dead`: what is left after the last section;
* `stop_complete`: every session is cancelled, and closed unless it was registered after the last
  section; a session that was registered then is never closed and stays in the table.
-/

namespace TcpPep

open Protocol Fec Events

variable {α : Type}

/-- `Close` has been called: nothing else stops the shaper. -/
def Session.closed (s : Session) : Bool := s.tx.shaper.stopped

/-! ## The sections of `Stop` -/

/-- How far `Stop` is. -/
inductive StopStage where
  | running
  /-- `stopped` is set -/
  | marked
  /-- the context is cancelled -/
  | cancelled
  /-- `Stop` has returned -/
  | stopped
  deriving DecidableEq

def StopStage.contextDone : StopStage → Bool
  | .running | .marked => false
  | .cancelled | .stopped => true

/-- The contexts of the sessions are children of the context of the PEP. -/
def Stream.cancelContext (st : Stream α) : Stream α :=
  { st with served := st.served.map fun o =>
    { o with session := { o.session with cancelled := true } } }

def Server.cancelContext (s : Server α) : Server α :=
  { s with stream := fun id => (s.stream id).cancelContext }

/-- The last section: close every session of the table and make a new table. -/
def Server.clear (s : Server α) : Server α :=
  { s with stream := fun id => { (s.stream id).closeCurrent with current := none } }

structure Halt (α : Type) where
  server : Server α := {}
  stop : StopStage := .running
  /-- `udpDemuxLoop` has returned -/
  demuxOut : Bool := false
  /-- `cleanupLoop` has returned -/
  cleanupOut : Bool := false
  /-- the number of sessions of each StreamID at the last section; no step reads it -/
  made : UInt16 → Nat := fun _ => 0

inductive HaltEvent (α : Type) where
  | step (e : ServerEvent α)
  | mark
  | cancel
  | clear
  | demuxReturn
  | cleanupReturn
  deriving DecidableEq

namespace Halt

variable (rs : ReedSolomon) (pc : PepConfig)

/-- The goroutine of the step still runs. A datagram that was read before the UDP socket was closed
may be looked up at any time after that. -/
def allows (h : Halt α) : ServerEvent α → Bool
  | .recv _ _ | .demux _ _ => !h.demuxOut
  | .stream _ .cleanup => !h.cleanupOut
  | .stream _ _ => true

def step (h : Halt α) : HaltEvent α → Option (Halt α)
  | .step e =>
    if h.allows e then
      (h.server.step rs pc e).map fun r =>
        -- a session that is made from a cancelled context is cancelled
        { h with server := if h.stop.contextDone then r.1.cancelContext else r.1 }
    else none
  | .mark => if h.stop = .running then some { h with stop := .marked } else none
  | .cancel =>
    if h.stop = .marked then some { h with stop := .cancelled, server := h.server.cancelContext }
    else none
  | .clear =>
    if h.stop = .cancelled then
      some { h with
        stop := .stopped
        server := h.server.clear
        made := fun id => (h.server.stream id).served.length }
    else none
  | .demuxReturn =>
    match h.server.loop with
    | .read => if h.stop = .running then none else some { h with demuxOut := true }
    | _ => none
  | .cleanupReturn => if h.stop.contextDone then some { h with cleanupOut := true } else none

end Halt

/-- The machine of a server that is shut down. -/
def halting (rs : ReedSolomon) (pc : PepConfig) : Machine (Halt α) (HaltEvent α) where
  init := {}
  step := Halt.step rs pc

/-- No session is registered under a StreamID while a RESET for it is handled. -/
def Halt.Undisturbed (h : Halt α) : HaltEvent α → Prop
  | .step e => TcpPep.Undisturbed h.server e
  | _ => True

instance (h : Halt α) (e : HaltEvent α) : Decidable (h.Undisturbed e) :=
  match e with
  | .step e => inferInstanceAs (Decidable (TcpPep.Undisturbed h.server e))
  | .mark | .cancel | .clear | .demuxReturn | .cleanupReturn => inferInstanceAs (Decidable True)

/-! ## Sessions that are closed -/

theorem Sender.Stepped.stopped {rs : ReedSolomon} {cfg : Config} {done : Bool} {s : Sender}
    {e : TxEvent} {eff : Effect Sender} (hs : Sender.Stepped rs cfg done s e eff) :
    eff.state.shaper.stopped = s.shaper.stopped := by
  cases hs with
  | read data hr hne hle =>
    obtain ⟨timer, loose, heq⟩ := readTCP_eq rs cfg s data
    simp only [heq]
    split
    · rfl
    · exact flush_stopped
  | finFlush hr hd => exact flush_stopped
  | timerRun hc => exact flush_stopped
  | shaper e shaper run out hrun => exact (Shaper.ran_of_runStep hrun).stopped
  | _ => rfl

namespace Session

variable {rs : ReedSolomon} {cfg : Config} {s s' : Session} {e : SessionEvent} {out : List Bytes}

theorem closed_close (s : Session) : s.close.closed = true := rfl

theorem handle_closed (cfg : Config) (p : Packet) (h : s.closed = true) :
    (s.handle rs cfg p).closed = true := by
  unfold handle
  split
  · exact h
  · split <;> exact h
  · obtain ⟨m, ok, blocks, size, interval, heq, -⟩ := Sender.handleLQR_eq cfg s.tx p
    rw [heq]
    exact h
  · exact h
  · rfl
  · exact h

theorem finishHandler_closed (h : s.closed = true) : s.finishHandler.closed = true := by
  unfold finishHandler
  split
  · exact h
  · exact (Shaper.stopped_foldl_enqueue _ _).trans h
  · simp only
    split
    · rfl
    · exact h

theorem step_closed (hs : s.step rs cfg e = some (s', out)) (h : s.closed = true) :
    s'.closed = true := by
  cases stepped_of_step hs with
  | tx e eff hl hclose heff => exact heff.stopped.trans h
  | txClose e eff hl hclose heff => rfl
  | recv p hd => exact handle_closed cfg p h
  | finishHandler hd => exact finishHandler_closed h
  | cancel => rfl
  | launch | start | rx => exact h

/-- The goroutines of a session that was cancelled when it was made: the reader returns at its first
look at the context, and nobody starts the CLOSE goroutine. -/
structure Stillborn (s : Session) : Prop where
  reader : s.tx.reader = .idle ∨ s.tx.reader = .check ∨ s.tx.reader = .returned
  closer : s.tx.closer = .idle

theorem stillborn_new (cfg : Config) : (newSession cfg).Stillborn := ⟨Or.inl rfl, rfl⟩

theorem Stillborn.tx (h : s.Stillborn) {ev : TxEvent} {eff : Effect Sender}
    (hs : Sender.Stepped rs cfg true s.tx ev eff) :
    eff.close = false ∧ (eff.state.reader = .idle ∨ eff.state.reader = .check ∨
      eff.state.reader = .returned) ∧ eff.state.closer = .idle := by
  have hreader := h.reader
  have hcloser := h.closer
  cases hs with
  | check hr hd hq => cases hd
  | read data hr hne hle => simp [hr] at hreader
  | eof hr => simp [hr] at hreader
  | readError hr => simp [hr] at hreader
  | finFlush hr hd => cases hd
  | finDrain hr hq => simp [hr] at hreader
  | finAcked hr ha => simp [hr] at hreader
  | finTimeout hr => simp [hr] at hreader
  | readerQuit hq hd => exact ⟨rfl, Or.inr (Or.inr rfl), hcloser⟩
  | timerRun hc =>
    refine ⟨rfl, ?_, ?_⟩
    · rw [Sender.flush_reader]
      exact hreader
    · rw [Sender.flush_closer]
      exact hcloser
  | closeSend hc => simp [hcloser] at hc
  | closeMark hc => simp [hcloser] at hc
  | closeBoth hc => simp [hcloser] at hc
  | closeLoop hc => simp [hcloser] at hc
  | closeAnswered hc hr => simp [hcloser] at hc
  | closeAgain hc hr => simp [hcloser] at hc
  | closeQuit hc hd => simp [hcloser] at hc
  | timerFire | looseFire | shaper => exact ⟨rfl, hreader, hcloser⟩

/-- **Step lemma.** Such a session never closes itself. -/
theorem Stillborn.step (h : s.Stillborn) (hc : s.cancelled = true) (hown : e.isOwn = true)
    (hs : s.step rs cfg e = some (s', out)) : s'.Stillborn ∧ s'.closed = s.closed := by
  cases stepped_of_step hs with
  | launch hl => exact ⟨⟨Or.inr (Or.inl rfl), h.closer⟩, rfl⟩
  | start hl hst => exact ⟨⟨h.reader, h.closer⟩, rfl⟩
  | tx e eff hl hclose heff =>
    rw [hc] at heff
    obtain ⟨-, hreader, hcloser⟩ := h.tx heff
    exact ⟨⟨hreader, hcloser⟩, heff.stopped⟩
  | txClose e eff hl hclose heff =>
    rw [hc] at heff
    rw [(h.tx heff).1] at hclose
    cases hclose
  | rx e eff heff => exact ⟨⟨h.reader, h.closer⟩, rfl⟩
  | recv p hd => cases hown
  | finishHandler hd => cases hown
  | cancel => cases hown

theorem Stillborn.handle (h : s.Stillborn) (cfg : Config) (p : Packet) :
    (s.handle rs cfg p).Stillborn := by
  constructor
  · rw [handle_reader]
    exact h.reader
  · rw [(handle_closer cfg p).1]
    exact h.closer

theorem Stillborn.finishHandler (h : s.Stillborn) : s.finishHandler.Stillborn := by
  constructor
  · rw [finishHandler_reader]
    exact h.reader
  · rw [finishHandler_closer.1]
    exact h.closer

end Session

/-! ## The table before the last section -/

namespace Stream

variable {rs : ReedSolomon} {pc : PepConfig} {id : UInt16} {st st' : Stream α}
  {out : List (Reply α)}

theorem getElem?_cancelContext (i : Nat) :
    st.cancelContext.served[i]? =
      (st.served[i]?).map fun o => { o with session := { o.session with cancelled := true } } := by
  simp [cancelContext]

/-- A session that has not been closed is the one in the table. -/
def Shelved (st : Stream α) : Prop :=
  ∀ (i : Nat) (o : Served α), st.served[i]? = some o → o.session.closed = true ∨ st.current = some i

/-- Closing the session of the table closes the last one that was open. -/
theorem Shelved.closeCurrent (h : st.Shelved) (i : Nat) (o : Served α)
    (ho : st.closeCurrent.served[i]? = some o) :
    o.session.closed = true := by
  unfold Stream.closeCurrent at ho
  split at ho
  · rename_i j hj
    simp only [update, List.getElem?_modify, Option.map_eq_map, Option.map_eq_some_iff] at ho
    obtain ⟨o', ho', rfl⟩ := ho
    split
    · rfl
    · rename_i hne
      rcases h i o' ho' with hclosed | hcur
      · exact hclosed
      · exact absurd (Option.some.inj (hj.symm.trans hcur)) hne
  · rename_i hnone
    rcases h i o ho with hclosed | hcur
    · exact hclosed
    · cases hnone.symm.trans hcur

theorem Shelved.update (h : st.Shelved) {j : Nat} {f : Session → Session}
    (hf : ∀ o, st.served[j]? = some o → o.session.closed = true → (f o.session).closed = true) :
    (st.update j f).Shelved :=
  served_update (Q := fun i o => o.session.closed = true ∨ st.current = some i) h
    fun o ho hq => hq.imp_left (hf o ho)

theorem Shelved.moved {ev : StreamEvent} (h : st.Shelved) (hm : Moved rs pc id st ev st' out) :
    st'.Shelved := by
  cases hm with
  | dialOk | dialFail | sendAck => exact h
  | register k dest clientAddr hk =>
    intro i o ho
    simp only [List.getElem?_append, List.getElem?_singleton] at ho
    split at ho
    · exact Or.inl (h.closeCurrent i o ho)
    · split at ho
      · rename_i hlt hzero
        right
        rw [length_closeCurrent_served] at hlt hzero ⊢
        rw [show i = st.served.length by omega]
      · cases ho
  | act j e o session sent ho hown hs =>
    apply h.update
    intro o' ho' hc
    obtain rfl := Option.some.inj (ho.symm.trans ho')
    exact Session.step_closed hs hc
  | cleanup j hj => exact fun i o ho => Or.inl (h.closeCurrent i o ho)

/-- **Step lemma of the demultiplexer**, which must not delete the entry of a session that is open.
-/
theorem Shelved.handled {loop loop' : DemuxLoop α} (h : st.Shelved)
    (hh : Handled rs pc id st loop loop' st' out)
    (hreset : loop = .reset id → ∀ (i : Nat) (o : Served α), st.served[i]? = some o →
      o.session.closed = true) :
    st'.Shelved := by
  cases hh with
  | reack => exact h
  | handle p rAddr j o loop ho hid ht hloop =>
    apply h.update
    intro o' ho' hc
    obtain rfl := Option.some.inj (ho.symm.trans ho')
    exact Session.handle_closed _ p hc
  | finish j => exact h.update fun o _ hc => Session.finishHandler_closed hc
  | delete => exact fun i o ho => Or.inl (hreset rfl i o ho)

/-- Only a registration makes a session that is open. -/
theorem Moved.allClosed {ev : StreamEvent} (hm : Moved rs pc id st ev st' out)
    (hev : ∀ k, ev ≠ .register k) (h : ∀ (i : Nat) (o : Served α), st.served[i]? = some o →
      o.session.closed = true) :
    ∀ (i : Nat) (o : Served α), st'.served[i]? = some o → o.session.closed = true := by
  cases hm with
  | dialOk | dialFail | sendAck => exact h
  | register k => exact absurd rfl (hev k)
  | act j e o session sent ho hown hs =>
    apply served_update (Q := fun _ o => o.session.closed = true) h
    intro o' ho' hc
    obtain rfl := Option.some.inj (ho.symm.trans ho')
    exact Session.step_closed hs hc
  | cleanup j hj =>
    exact served_closeCurrent (Q := fun _ o => o.session.closed = true) (fun _ _ _ => rfl) h

/-- The loop goes on to the deletion of an entry after it has closed the session it found. -/
theorem demux_reset_closed {loop : DemuxLoop α} {ev : DemuxEvent} {id' : UInt16}
    (h : st.demux rs pc id loop ev = some (.reset id', st', out)) :
    id' = id ∧ ∃ p rAddr i, loop = .found p rAddr i ∧ p.type = .reset ∧ p.streamID = id ∧
      ∀ o : Served α, st'.served[i]? = some o → o.session.closed = true := by
  obtain ⟨rfl, p, rAddr, i, rfl, ht, hid, -⟩ := demux_reset h
  refine ⟨rfl, p, rAddr, i, rfl, ht, hid, ?_⟩
  intro o ho
  have hh := demux_handled h
  cases hh with
  | handle p rAddr i o' loop ho' hid ht' hloop =>
    simp only [Stream.update, List.getElem?_modify_eq, ho', Option.map_eq_map, Option.map_some,
      Option.some.injEq] at ho
    subst ho
    simp [Session.handle, ht, Session.closed_close]

end Stream

/-- As in `Registry`, with the sessions that are open in place of those that run. -/
structure Server.Shelved (s : Server α) : Prop where
  stored : ∀ id, (s.stream id).Shelved
  reset : ∀ id, s.loop = .reset id → ∀ (i : Nat) (o : Served α), (s.stream id).served[i]? = some o →
    o.session.closed = true

namespace Server

variable {rs : ReedSolomon} {pc : PepConfig} {s s' : Server α} {e : ServerEvent α}
  {out : List (Reply α)}

theorem shelved_init : ({} : Server α).Shelved := by
  refine ⟨?_, by simp⟩
  intro id i o ho
  simp at ho

theorem Shelved.set (h : s.Shelved) {id : UInt16} {loop : DemuxLoop α} {st : Stream α}
    (hst : st.Shelved) (hreset : ∀ id', loop = .reset id' →
      ∀ (i : Nat) (o : Served α), ((s.set id loop st).stream id').served[i]? = some o →
      o.session.closed = true) : (s.set id loop st).Shelved := by
  refine ⟨?_, hreset⟩
  intro id'
  rw [set_stream]
  split
  · exact hst
  · exact h.stored id'

theorem Shelved.lookup {rAddr : α} {p : Packet} (h : s.Shelved) :
    (s.set p.streamID ((s.stream p.streamID).lookup rAddr p).1
      ((s.stream p.streamID).lookup rAddr p).2).Shelved := by
  have hst := h.stored p.streamID
  apply h.set
  · unfold Stream.lookup
    split
    · exact hst
    · split <;> exact hst
  · intro id hloop
    unfold Stream.lookup at hloop
    split at hloop
    · cases hloop
    · split at hloop <;> cases hloop

theorem Shelved.demux {id : UInt16} {ev : DemuxEvent} {loop : DemuxLoop α} {st : Stream α}
    (h : s.Shelved) (hreg : Registry s)
    (hev : (s.stream id).demux rs pc id s.loop ev = some (loop, st, out)) :
    (s.set id loop st).Shelved := by
  have hh := Stream.demux_handled hev
  have hst : st.Shelved := (h.stored id).handled hh fun hloop => h.reset id hloop
  apply h.set hst
  rintro id' rfl j o ho
  obtain ⟨rfl, p, rAddr, i, hloop, ht, hid, hclosed⟩ := Stream.demux_reset_closed hev
  rw [set_stream, if_pos rfl] at ho
  rcases hst j o ho with hdone | hcur
  · exact hdone
  · -- the entry was the session that the RESET has just closed
    have hkept : (s.stream id').current = some j := by
      generalize s.loop = loop at hh hloop
      subst hloop
      cases hh with
      | handle => exact hcur
    rw [← hid] at hkept
    obtain rfl := hreg.found p rAddr i hloop ht j hkept
    exact hclosed o ho

theorem Shelved.moved {id : UInt16} {ev : StreamEvent} {st : Stream α} (h : s.Shelved)
    (hok : Undisturbed s (.stream id ev)) (hm : Stream.Moved rs pc id (s.stream id) ev st out) :
    (s.set id s.loop st).Shelved := by
  apply h.set ((h.stored id).moved hm)
  intro id' hloop j o ho
  rw [set_stream] at ho
  split at ho
  · rename_i hid
    subst hid
    have hreg : ∀ k, ev ≠ .register k := by
      rintro k rfl
      exact hok (by simp [Resetting, hloop])
    exact hm.allClosed hreg (h.reset id' hloop) j o ho
  · exact h.reset id' hloop j o ho

theorem Shelved.step (h : s.Shelved) (hreg : Registry s) (hok : Undisturbed s e)
    (hs : s.step rs pc e = some (s', out)) : s'.Shelved := by
  rcases step_cases hs with ⟨rAddr, a, err, rfl, -, -, rfl, rfl⟩ |
    ⟨rAddr, a, p, rfl, -, -, rfl, rfl⟩ | ⟨id, ev, loop, st, rfl, hev, rfl⟩ | ⟨id, ev, st, rfl, hev,
      rfl⟩
  · exact h
  · exact h.lookup
  · exact h.demux hreg hev
  · exact h.moved hok (Stream.step_moved hev)

theorem getElem?_cancelContext {id : UInt16} {i : Nat} {o : Served α}
    (ho : (s.cancelContext.stream id).served[i]? = some o) :
    ∃ o', (s.stream id).served[i]? = some o' ∧
    o = { o' with session := { o'.session with cancelled := true } } := by
  change ((s.stream id).cancelContext).served[i]? = some o at ho
  rw [Stream.getElem?_cancelContext, Option.map_eq_some_iff] at ho
  obtain ⟨o', ho', rfl⟩ := ho
  exact ⟨o', ho', rfl⟩

theorem cancelled_cancelContext (s : Server α) (id : UInt16) (i : Nat) (o : Served α)
    (ho : (s.cancelContext.stream id).served[i]? = some o) : o.session.cancelled = true := by
  obtain ⟨o', -, rfl⟩ := getElem?_cancelContext ho
  rfl

/-- A cancelled context closes nothing, and leaves nothing running. -/
theorem Shelved.cancelContext (h : s.Shelved) : s.cancelContext.Shelved := by
  constructor
  · intro id i o ho
    obtain ⟨o', ho', rfl⟩ := getElem?_cancelContext ho
    exact h.stored id i o' ho'
  · intro id hloop i o ho
    obtain ⟨o', ho', rfl⟩ := getElem?_cancelContext ho
    exact h.reset id hloop i o' ho'

theorem registry_cancelContext (h : Registry s) : Registry s.cancelContext := by
  have hnone : ∀ id j, ¬ (s.cancelContext.stream id).Running j := by
    rintro id j ⟨o, ho, hc⟩
    rw [cancelled_cancelContext s id j o ho] at hc
    cases hc
  exact ⟨fun id j hj => absurd hj (hnone id j), h.found, fun id _ => hnone id⟩

/-- The last section closes the sessions that are open. -/
theorem Shelved.clear (h : s.Shelved) (id : UInt16) (i : Nat) (o : Served α)
    (ho : (s.clear.stream id).served[i]? = some o) : o.session.closed = true :=
  (h.stored id).closeCurrent i o ho

theorem registry_clear (hcancelled : ∀ (id : UInt16) (i : Nat) (o : Served α),
    (s.clear.stream id).served[i]? = some o → o.session.cancelled = true) : Registry s.clear := by
  have hnone : ∀ id j, ¬ (s.clear.stream id).Running j := by
    rintro id j ⟨o, ho, hc⟩
    rw [hcancelled id j o ho] at hc
    cases hc
  refine ⟨fun id j hj => absurd hj (hnone id j), ?_, fun id _ => hnone id⟩
  intro p rAddr i _ _ j hj
  cases hj

end Server

/-! ## After the last section -/

namespace Stream

variable {rs : ReedSolomon} {pc : PepConfig} {id : UInt16} {st st' : Stream α}
  {out : List (Reply α)} {n : Nat}

/-- All sessions are cancelled, and those that are open are the ones made after the first `n`; they
are stillborn. -/
structure Dead (n : Nat) (st : Stream α) : Prop where
  cancelled : ∀ (i : Nat) (o : Served α), st.served[i]? = some o → o.session.cancelled = true
  born : ∀ (i : Nat) (o : Served α), st.served[i]? = some o →
    o.session.closed = true ∨ n ≤ i ∧ o.session.Stillborn
  length : n ≤ st.served.length

theorem dead_cancelContext (hlen : n ≤ st.served.length)
    (h : ∀ (i : Nat) (o : Served α), st.served[i]? = some o →
      o.session.closed = true ∨ n ≤ i ∧ o.session.Stillborn) : st.cancelContext.Dead n := by
  refine ⟨?_, ?_, by simpa [cancelContext] using hlen⟩
  · intro i o ho
    rw [getElem?_cancelContext, Option.map_eq_some_iff] at ho
    obtain ⟨o', -, rfl⟩ := ho
    rfl
  · intro i o ho
    rw [getElem?_cancelContext, Option.map_eq_some_iff] at ho
    obtain ⟨o', ho', rfl⟩ := ho
    rcases h i o' ho' with hclosed | ⟨hle, hstill⟩
    · exact Or.inl hclosed
    · exact Or.inr ⟨hle, hstill.reader, hstill.closer⟩

theorem Dead.moved {ev : StreamEvent} (h : st.Dead n) (hm : Moved rs pc id st ev st' out) :
    st'.cancelContext.Dead n := by
  have hlen := h.length
  cases hm with
  | dialOk | dialFail | sendAck => exact dead_cancelContext hlen h.born
  | register k dest clientAddr hk =>
    apply dead_cancelContext
    · simp only [List.length_append, length_closeCurrent_served]
      omega
    · intro i o ho
      simp only [List.getElem?_append, List.getElem?_singleton] at ho
      split at ho
      · exact served_closeCurrent (fun _ _ _ => Or.inl rfl) h.born i o ho
      · split at ho
        · rename_i hlt hzero
          cases ho
          rw [length_closeCurrent_served] at hlt
          exact Or.inr ⟨by omega, Session.stillborn_new _⟩
        · cases ho
  | act j e o session sent ho hown hs =>
    apply dead_cancelContext
    · simpa using hlen
    · refine served_update (Q := fun i o => o.session.closed = true ∨ n ≤ i ∧
        o.session.Stillborn) h.born ?_
      intro o' ho' hq
      obtain rfl := Option.some.inj (ho.symm.trans ho')
      rcases hq with hclosed | ⟨hle, hstill⟩
      · exact Or.inl (Session.step_closed hs hclosed)
      · exact Or.inr ⟨hle, (hstill.step (h.cancelled j o ho) hown hs).1⟩
  | cleanup j hj =>
    apply dead_cancelContext
    · simpa using hlen
    · exact served_closeCurrent (fun _ _ _ => Or.inl rfl) h.born

theorem Dead.handled {loop loop' : DemuxLoop α} (h : st.Dead n)
    (hh : Handled rs pc id st loop loop' st' out) :
    st'.cancelContext.Dead n := by
  have hlen := h.length
  cases hh with
  | reack => exact dead_cancelContext hlen h.born
  | delete => exact dead_cancelContext hlen h.born
  | handle p rAddr j o loop ho hid ht hloop =>
    apply dead_cancelContext
    · simpa using hlen
    · refine served_update (Q := fun i o => o.session.closed = true ∨ n ≤ i ∧
        o.session.Stillborn) h.born ?_
      intro o' ho' hq
      obtain rfl := Option.some.inj (ho.symm.trans ho')
      exact hq.imp (Session.handle_closed _ p) fun hborn => ⟨hborn.1, hborn.2.handle _ p⟩
  | finish j =>
    apply dead_cancelContext
    · simpa using hlen
    · refine served_update (Q := fun i o => o.session.closed = true ∨ n ≤ i ∧
        o.session.Stillborn) h.born ?_
      intro o' _ hq
      exact hq.imp Session.finishHandler_closed fun hborn => ⟨hborn.1, hborn.2.finishHandler⟩

theorem Dead.kept (h : st.Dead n) : st.cancelContext.Dead n := dead_cancelContext h.length h.born

theorem Dead.lookup (h : st.Dead n) (rAddr : α) (p : Packet) :
    (st.lookup rAddr p).2.cancelContext.Dead n := by
  unfold Stream.lookup
  split
  · exact h.kept
  · split
    · exact dead_cancelContext h.length h.born
    · exact h.kept

end Stream

theorem Server.dead_step {rs : ReedSolomon} {pc : PepConfig} {s s' : Server α} {e : ServerEvent α}
    {out : List (Reply α)} {n : UInt16 → Nat} (h : ∀ id, (s.stream id).Dead (n id))
    (hs : s.step rs pc e = some (s', out)) (id : UInt16) :
    (s'.cancelContext.stream id).Dead (n id) := by
  have hset : ∀ id' loop st, st.cancelContext.Dead (n id') →
      ((s.set id' loop st).cancelContext.stream id).Dead (n id) := by
    intro id' loop st hst
    change ((s.set id' loop st).stream id).cancelContext.Dead (n id)
    rw [Server.set_stream]
    split
    · rename_i hid
      rw [hid]
      exact hst
    · exact (h id).kept
  rcases Server.step_cases hs with ⟨rAddr, a, err, rfl, -, -, rfl, rfl⟩ |
    ⟨rAddr, a, p, rfl, -, -, rfl, rfl⟩ | ⟨id', ev, loop, st, rfl, hev, rfl⟩ | ⟨id', ev, st, rfl,
      hev, rfl⟩
  · exact (h id).kept
  · exact hset _ _ _ ((h p.streamID).lookup rAddr p)
  · exact hset _ _ _ ((h id').handled (Stream.demux_handled hev))
  · exact hset _ _ _ ((h id').moved (Stream.step_moved hev))

namespace Halt

variable {rs : ReedSolomon} {pc : PepConfig} {h h' : Halt α} {e : HaltEvent α}

/-- What `Stop` has achieved so far. -/
structure Sound (h : Halt α) : Prop where
  registry : Registry h.server
  shelved : h.server.Shelved
  cancelled : h.stop.contextDone = true → ∀ (id : UInt16) (i : Nat) (o : Served α),
    (h.server.stream id).served[i]? = some o → o.session.cancelled = true
  dead : h.stop = .stopped → ∀ id, (h.server.stream id).Dead (h.made id)

theorem sound_init : ({} : Halt α).Sound := ⟨registry_init, Server.shelved_init, nofun, nofun⟩

theorem Sound.serverStep (hsound : h.Sound) {e : ServerEvent α} {s' : Server α}
    {out : List (Reply α)} (hok : TcpPep.Undisturbed h.server e)
    (hs : h.server.step rs pc e = some (s', out)) :
    Sound { h with server := if h.stop.contextDone then s'.cancelContext else s' } := by
  have hregistry := hsound.registry.step hok hs
  have hshelved := hsound.shelved.step hsound.registry hok hs
  cases hdone : h.stop.contextDone with
  | true =>
    refine ⟨Server.registry_cancelContext hregistry, hshelved.cancelContext,
      fun _ => Server.cancelled_cancelContext s', ?_⟩
    intro hstop
    exact Server.dead_step (hsound.dead hstop) hs
  | false =>
    refine ⟨hregistry, hshelved, fun hd => ?_, ?_⟩
    · cases hdone.symm.trans hd
    · intro hstop
      change h.stop = .stopped at hstop
      rw [hstop] at hdone
      cases hdone

theorem Sound.clear (hsound : h.Sound) (hdone : h.stop.contextDone = true) :
    Sound { h with stop := .stopped, server := h.server.clear
                   made := fun id => (h.server.stream id).served.length } := by
  have hcancelled : ∀ (id : UInt16) (i : Nat) (o : Served α),
      (h.server.clear.stream id).served[i]? = some o → o.session.cancelled = true := by
    intro id
    exact Stream.served_closeCurrent (Q := fun _ o => o.session.cancelled = true) (fun _ _ _ => rfl)
      (hsound.cancelled hdone id)
  have hclosed := hsound.shelved.clear
  refine ⟨Server.registry_clear hcancelled, ⟨?_, fun id _ => hclosed id⟩, fun _ => hcancelled, ?_⟩
  · exact fun id i o ho => Or.inl (hclosed id i o ho)
  · intro _ id
    refine ⟨hcancelled id, fun i o ho => Or.inl (hclosed id i o ho), ?_⟩
    exact Nat.le_of_eq Stream.length_closeCurrent_served.symm

theorem Sound.step (hsound : h.Sound) (hok : h.Undisturbed e) (hs : h.step rs pc e = some h') :
    h'.Sound := by
  cases e with
  | step e =>
    simp only [Halt.step, Option.ite_none_right_eq_some, Option.map_eq_some_iff, Prod.exists] at hs
    obtain ⟨-, s', out, hstep, rfl⟩ := hs
    exact hsound.serverStep hok hstep
  | mark =>
    simp only [Halt.step, Option.ite_none_right_eq_some, Option.some.injEq] at hs
    obtain ⟨-, rfl⟩ := hs
    exact ⟨hsound.registry, hsound.shelved, nofun, nofun⟩
  | cancel =>
    simp only [Halt.step, Option.ite_none_right_eq_some, Option.some.injEq] at hs
    obtain ⟨-, rfl⟩ := hs
    exact ⟨Server.registry_cancelContext hsound.registry, hsound.shelved.cancelContext,
      fun _ => Server.cancelled_cancelContext h.server, nofun⟩
  | clear =>
    simp only [Halt.step, Option.ite_none_right_eq_some, Option.some.injEq] at hs
    obtain ⟨hstop, rfl⟩ := hs
    exact hsound.clear (by rw [hstop]; rfl)
  | demuxReturn =>
    simp only [Halt.step] at hs
    split at hs
    · simp only [Option.ite_none_left_eq_some, Option.some.injEq] at hs
      obtain ⟨-, rfl⟩ := hs
      exact ⟨hsound.registry, hsound.shelved, hsound.cancelled, hsound.dead⟩
    · cases hs
  | cleanupReturn =>
    simp only [Halt.step, Option.ite_none_right_eq_some, Option.some.injEq] at hs
    obtain ⟨-, rfl⟩ := hs
    exact ⟨hsound.registry, hsound.shelved, hsound.cancelled, hsound.dead⟩

/-- A session in the table that nobody is left to close. -/
structure Leaked (id : UInt16) (i : Nat) (h : Halt α) : Prop where
  stopped : h.stop = .stopped
  demuxOut : h.demuxOut = true
  cleanupOut : h.cleanupOut = true
  dead : ∀ id, (h.server.stream id).Dead (h.made id)
  connects : (h.server.stream id).connects = []
  current : (h.server.stream id).current = some i
  isOpen : ∃ o, (h.server.stream id).served[i]? = some o ∧ o.session.closed = false

end Halt

/-- A step of a goroutine of the StreamID, apart from `cleanupLoop`. -/
theorem Stream.leaked_moved {rs : ReedSolomon} {pc : PepConfig} {id : UInt16} {st st' : Stream α}
    {out : List (Reply α)} {n i : Nat} {ev : StreamEvent} (hdead : st.Dead n)
    (hconnects : st.connects = []) (hopen : ∃ o, st.served[i]? = some o ∧ o.session.closed = false)
    (hm : Moved rs pc id st ev st' out) (hev : ev ≠ .cleanup) :
    st'.connects = [] ∧ st'.current = st.current ∧ ∃ o, st'.served[i]? = some o ∧
    o.session.closed = false := by
  cases hm with
  | dialOk k dest clientAddr hk => simp [hconnects] at hk
  | dialFail k msg dest clientAddr hk => simp [hconnects] at hk
  | sendAck k dest clientAddr hk => simp [hconnects] at hk
  | register k dest clientAddr hk => simp [hconnects] at hk
  | cleanup j hj => exact absurd rfl hev
  | act j e o session sent ho hown hs =>
    refine ⟨hconnects, rfl, ?_⟩
    obtain ⟨o', ho', hclosed⟩ := hopen
    simp only [Stream.update, List.getElem?_modify, ho', Option.map_eq_map, Option.map_some]
    refine ⟨_, rfl, ?_⟩
    split
    · rename_i hij
      subst hij
      obtain rfl := Option.some.inj (ho.symm.trans ho')
      rcases hdead.born j o ho with hdone | ⟨-, hstill⟩
      · cases hclosed.symm.trans hdone
      · exact (hstill.step (hdead.cancelled j o ho) hown hs).2.trans hclosed
    · exact hclosed

namespace Halt

variable {rs : ReedSolomon} {pc : PepConfig} {h h' : Halt α} {e : HaltEvent α}

/-- **Step lemma.** Nothing that still runs closes it. -/
theorem Leaked.step {id : UInt16} {i : Nat} (hl : h.Leaked id i) (hs : h.step rs pc e = some h') :
    h'.Leaked id i := by
  have hstop := hl.stopped
  cases e with
  | step e =>
    simp only [Halt.step, Option.ite_none_right_eq_some, Option.map_eq_some_iff, Prod.exists] at hs
    obtain ⟨hallow, s', out, hstep, rfl⟩ := hs
    have hdead := Server.dead_step hl.dead hstep
    cases e with
    | recv rAddr a => simp [allows, hl.demuxOut] at hallow
    | demux id' ev => simp [allows, hl.demuxOut] at hallow
    | stream id' ev =>
      have hev : ev ≠ .cleanup := by
        rintro rfl
        simp [allows, hl.cleanupOut] at hallow
      simp only [Server.step, Option.map_eq_some_iff, Prod.exists, Prod.mk.injEq] at hstep
      obtain ⟨st, _, hst, rfl, rfl⟩ := hstep
      have hkept : ((h.server.set id' h.server.loop st).stream id).connects = [] ∧
          ((h.server.set id' h.server.loop st).stream id).current = some i ∧
          ∃ o, ((h.server.set id' h.server.loop st).stream id).served[i]? = some o ∧
          o.session.closed = false := by
        rw [Server.set_stream]
        split
        · rename_i hid
          subst hid
          obtain ⟨hconnects, hcurrent, hopen⟩ :=
            Stream.leaked_moved (hl.dead id) hl.connects hl.isOpen (Stream.step_moved hst) hev
          exact ⟨hconnects, hcurrent.trans hl.current, hopen⟩
        · exact ⟨hl.connects, hl.current, hl.isOpen⟩
      obtain ⟨hconnects, hcurrent, o, ho, hclosed⟩ := hkept
      have hdone : h.stop.contextDone = true := by rw [hstop]; rfl
      simp only [hdone, if_true]
      refine ⟨hl.stopped, hl.demuxOut, hl.cleanupOut, hdead, hconnects, hcurrent, ?_⟩
      refine ⟨{ o with session := { o.session with cancelled := true } }, ?_, hclosed⟩
      change ((h.server.set id' h.server.loop st).stream id).cancelContext.served[i]? = _
      rw [Stream.getElem?_cancelContext, ho]
      rfl
  | mark => simp [Halt.step, hstop] at hs
  | cancel => simp [Halt.step, hstop] at hs
  | clear => simp [Halt.step, hstop] at hs
  | demuxReturn =>
    simp only [Halt.step] at hs
    split at hs
    · simp only [Option.ite_none_left_eq_some, Option.some.injEq] at hs
      obtain ⟨-, rfl⟩ := hs
      exact ⟨hl.stopped, rfl, hl.cleanupOut, hl.dead, hl.connects, hl.current, hl.isOpen⟩
    · cases hs
  | cleanupReturn =>
    simp only [Halt.step, Option.ite_none_right_eq_some, Option.some.injEq] at hs
    obtain ⟨-, rfl⟩ := hs
    exact ⟨hl.stopped, hl.demuxOut, rfl, hl.dead, hl.connects, hl.current, hl.isOpen⟩

end Halt

/-- **`Stop`.** When `Stop` has returned, every session is cancelled, and closed unless it was
registered after the last section of `Stop`; such a session is the one in the table. Once the two
loops have returned and no `handleConnect` for its StreamID is under way, nothing that happens later
closes it or takes it out of the table. -/
theorem stop_complete {rs : ReedSolomon} {pc : PepConfig} {h : Halt α}
    (hr : Reach (halting rs pc) Halt.Undisturbed h) (hstop : h.stop = .stopped) :
    (∀ (id : UInt16) (i : Nat) (o : Served α), (h.server.stream id).served[i]? = some o →
      o.session.cancelled = true ∧
        (o.session.closed = false → h.made id ≤ i ∧ (h.server.stream id).current = some i)) ∧
    ∀ (id : UInt16) (i : Nat) (o : Served α), (h.server.stream id).served[i]? = some o →
      o.session.closed = false → h.demuxOut = true → h.cleanupOut = true →
      (h.server.stream id).connects = [] → ∀ (ok : Halt α → HaltEvent α → Prop) (h' : Halt α), Reach
        { halting rs pc with init := h } ok h' → (h'.server.stream id).current = some i ∧
          ∃ o', (h'.server.stream id).served[i]? = some o' ∧ o'.session.closed = false := by
  have hsound : h.Sound := hr.invariant (I := Halt.Sound) Halt.sound_init fun h e h' hi hok hs =>
    hi.step hok hs
  have hdead := hsound.dead hstop
  have hcurrent : ∀ (id : UInt16) (i : Nat) (o : Served α),
      (h.server.stream id).served[i]? = some o → o.session.closed = false →
      (h.server.stream id).current = some i := by
    intro id i o ho hopen
    rcases hsound.shelved.stored id i o ho with hclosed | hcur
    · cases hopen.symm.trans hclosed
    · exact hcur
  constructor
  · intro id i o ho
    refine ⟨(hdead id).cancelled i o ho, ?_⟩
    intro hopen
    rcases (hdead id).born i o ho with hclosed | ⟨hle, -⟩
    · cases hopen.symm.trans hclosed
    · exact ⟨hle, hcurrent id i o ho hopen⟩
  · intro id i o ho hopen hdemux hcleanup hconnects ok h' hr'
    have hstart : h.Leaked id i :=
      ⟨hstop, hdemux, hcleanup, hdead, hconnects, hcurrent id i o ho hopen, o, ho, hopen⟩
    have hleaked : h'.Leaked id i :=
      hr'.invariant (I := Halt.Leaked id i) hstart fun h e h' hi _ hs => hi.step hs
    exact ⟨hleaked.current, hleaked.isOpen⟩

/-- A CONNECT is answered, `Stop` runs from beginning to end, and then the session is registered and
launched. -/
def lateRegister : List (HaltEvent Nat) :=
  ((establish 5001 1 65).take 3).map .step ++ [.mark, .cancel,
    .clear] ++ ((establish 5001 1 65).drop 3).map .step ++ [.demuxReturn, .cleanupReturn]

theorem stop_complete_small :
    ∃ h : Halt Nat, Reach (halting reedSolomonTwoOne smallPep) Halt.Undisturbed h ∧
      h.stop = .stopped ∧ (h.server.stream 1).served.map
      (fun o => (o.session.cancelled, o.session.launched)) = [(true, true)] ∧
      ∀ h' : Halt Nat,
      Reach { halting reedSolomonTwoOne smallPep with init := h } (fun _ _ => True) h' →
        (h'.server.stream 1).current = some 0 := by
  obtain ⟨h, hr, hstop, hserved, hopen, hdemux, hcleanup, hconnects⟩ :
      ∃ h : Halt Nat, Reach (halting reedSolomonTwoOne smallPep) Halt.Undisturbed h ∧
        h.stop = .stopped ∧
        (h.server.stream 1).served.map (fun o => (o.session.cancelled, o.session.launched)) =
        [(true, true)] ∧ (h.server.stream 1).served.map (fun o => o.session.closed) = [false] ∧
        h.demuxOut = true ∧ h.cleanupOut = true ∧ (h.server.stream 1).connects = [] :=
    Reach.exists_of_runOk _ lateRegister (by decide +kernel)
  obtain ⟨o, ho, hclosed⟩ : ∃ o, (h.server.stream 1).served[0]? = some o ∧
      o.session.closed = false := by
    have hget := congrArg (fun l => l[0]?) hopen
    simpa using hget
  refine ⟨h, hr, hstop, hserved, ?_⟩
  intro h' hr'
  exact ((stop_complete hr hstop).2 1 0 o ho hclosed hdemux hcleanup hconnects _ h' hr').1

end TcpPep
