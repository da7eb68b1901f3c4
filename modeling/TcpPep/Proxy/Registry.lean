import TcpPep.Proxy.Connect
import TcpPep.Proxy.Link

/-!
The session table of the server.

A RESET is handled in three critical sections: the look-up, the `Close` of the
session that was found, and the deletion of the entry, which is keyed by the
StreamID alone. A `handleConnect` may replace the entry between them.

* `Stream.Stored`: the one session that runs is the one in the table;
* `Registry`: what the demultiplexer knows while it handles a RESET;
* `registered_stored`: when no session is registered under a StreamID while a RESET for it
  is handled, every running session is in the table;
* `reset_orphans`: the session of a second CONNECT is deleted by the RESET of the first.
-/

namespace TcpPep

open Protocol Fec Events

variable {α : Type}

/-- Session `i` has been registered and its context is not cancelled. -/
def Stream.Running (st : Stream α) (i : Nat) : Prop :=
  ∃ o, st.served[i]? = some o ∧ o.session.cancelled = false

/-- The sessions that run are those in the table. -/
def Stream.Stored (st : Stream α) : Prop := ∀ i, st.Running i → st.current = some i

/-- The demultiplexer is between the look-up of a RESET for `id` and its deletion of the
entry. -/
def Server.Resetting (s : Server α) (id : UInt16) : Prop :=
  match s.loop with
  | .found p _ _ => p.type = .reset ∧ p.streamID = id
  | .reset id' => id' = id
  | _ => False

instance (s : Server α) (id : UInt16) : Decidable (s.Resetting id) := by
  unfold Server.Resetting
  split <;> infer_instance

/-- No session is registered under a StreamID while a RESET for it is handled. -/
def Undisturbed (s : Server α) : ServerEvent α → Prop
  | .stream id (.register _) => ¬ s.Resetting id
  | _ => True

instance (s : Server α) (e : ServerEvent α) : Decidable (Undisturbed s e) := by
  unfold Undisturbed
  split <;> infer_instance

namespace Stream

variable {rs : ReedSolomon} {pc : PepConfig} {id : UInt16} {st st' : Stream α}
  {out : List (Reply α)}

theorem running_update {i j : Nat} {f : Session → Session} (hf : ∀ o, st.served[j]? = some o →
      o.session.cancelled = true → (f o.session).cancelled = true) (h : (st.update j f).Running i) :
    st.Running i := by
  obtain ⟨o, ho, hc⟩ := h
  simp only [update, List.getElem?_modify, Option.map_eq_map, Option.map_eq_some_iff] at ho
  obtain ⟨o', ho', rfl⟩ := ho
  refine ⟨o', ho', ?_⟩
  split at hc
  · rename_i hij
    subst hij
    exact Bool.eq_false_iff.mpr fun ht => Bool.eq_false_iff.mp hc (hf o' ho' ht)
  · exact hc

/-- What closes session `j` leaves it not running. -/
theorem ne_of_running_update {i j : Nat} {f : Session → Session}
    (hf : ∀ o, st.served[j]? = some o → (f o.session).cancelled = true)
    (h : (st.update j f).Running i) :
    i ≠ j := by
  rintro rfl
  obtain ⟨o, ho, hc⟩ := h
  simp only [update, List.getElem?_modify_eq, Option.map_eq_map, Option.map_eq_some_iff] at ho
  obtain ⟨o', ho', rfl⟩ := ho
  exact Bool.eq_false_iff.mp hc (hf o' ho')

theorem running_closeCurrent {i : Nat} (h : st.closeCurrent.Running i) :
    st.Running i ∧ st.current ≠ some i := by
  unfold closeCurrent at h
  split at h
  · rename_i j hj
    refine ⟨running_update (fun _ _ _ => rfl) h, ?_⟩
    rw [hj]
    rintro ⟨⟩
    exact ne_of_running_update (fun _ _ => rfl) h rfl
  · rename_i hnone
    exact ⟨h, by simp [hnone]⟩

/-- Only a registration makes a session run. -/
theorem Moved.running {ev : StreamEvent} (hm : Moved rs pc id st ev st' out) {i : Nat}
    (h : st'.Running i) (hev : ∀ k, ev ≠ .register k) : st.Running i := by
  cases hm with
  | dialOk | dialFail | sendAck => exact h
  | register k => exact absurd rfl (hev k)
  | act j e o session sent ho hown hs =>
    refine running_update (fun o' ho' hc => ?_) h
    obtain rfl := Option.some.inj (ho.symm.trans ho')
    exact (Session.step_rxChange hs).2.2 hc
  | cleanup j hj => exact (running_closeCurrent h).1

theorem Handled.running {loop loop' : DemuxLoop α} (hh : Handled rs pc id st loop loop' st' out)
    {i : Nat} (h : st'.Running i) : st.Running i := by
  cases hh with
  | reack | delete => exact h
  | handle p rAddr j o loop ho hid ht hloop =>
    refine running_update (fun o' ho' hc => ?_) h
    obtain rfl := Option.some.inj (ho.symm.trans ho')
    exact Session.handle_cancelled _ p hc
  | finish j => exact running_update (fun _ _ => Session.finishHandler_cancelled) h

/-- Only a registration fills the entry of the table. -/
theorem Moved.current_of_kept {ev : StreamEvent} (hm : Moved rs pc id st ev st' out) {i : Nat}
    (h : st'.current = some i) (hev : ∀ k, ev ≠ .register k) : st.current = some i := by
  cases hm with
  | register k => exact absurd rfl (hev k)
  | cleanup j hj => cases h
  | _ => exact h

/-- **Step lemma of the goroutines.** A registration closes the session it replaces, and
`cleanupLoop` the one it removes. -/
theorem Stored.moved {ev : StreamEvent} (h : st.Stored) (hm : Moved rs pc id st ev st' out) :
    st'.Stored := by
  intro i hi
  cases hm with
  | dialOk | dialFail | sendAck => exact h i hi
  | register k dest clientAddr hk =>
    obtain ⟨o, ho, hc⟩ := hi
    simp only [List.getElem?_append, length_closeCurrent_served, List.getElem?_singleton] at ho
    split at ho
    · obtain ⟨hrun, hne⟩ := running_closeCurrent ⟨o, ho, hc⟩
      exact absurd (h i hrun) hne
    · split at ho
      · rename_i hlt hzero
        obtain rfl : i = st.served.length := by omega
        simp
      · cases ho
  | act j e o session sent ho hown hs =>
    exact h i (Moved.running (.act j e o session sent ho hown hs) hi (by simp))
  | cleanup j hj =>
    obtain ⟨hrun, hne⟩ := running_closeCurrent hi
    exact absurd (h i hrun) hne

/-- **Step lemma of the demultiplexer**, which must not delete the entry of a session that
runs. -/
theorem Stored.handled {loop loop' : DemuxLoop α} (h : st.Stored)
    (hh : Handled rs pc id st loop loop' st' out)
    (hreset : loop = .reset id → ∀ i, ¬ st.Running i) : st'.Stored := by
  intro i hi
  have hcur := h i (hh.running hi)
  cases hh with
  | reack | handle | finish => exact hcur
  | delete => exact absurd hi (hreset rfl i)

/-- The loop goes on to the deletion of an entry after it has closed the session it found. -/
theorem demux_reset {loop : DemuxLoop α} {ev : DemuxEvent} {id' : UInt16}
    (h : st.demux rs pc id loop ev = some (.reset id', st', out)) :
    id' = id ∧ ∃ p rAddr i, loop = .found p rAddr i ∧ p.type = .reset ∧ p.streamID = id ∧
      ∀ j, st'.Running j → j ≠ i := by
  cases ev with
  | dispatch =>
    simp only [demux] at h
    split at h
    · rename_i p rAddr i
      split at h
      · rename_i o ho
        split at h
        · rename_i hid
          split at h
          · cases h
          · split at h
            · rename_i ht
              cases h
              refine ⟨rfl, p, rAddr, i, rfl, ht, hid, fun j => ne_of_running_update ?_⟩
              intro o' ho'
              obtain rfl := Option.some.inj (ho.symm.trans ho')
              simp [Session.handle, ht, Session.close]
            · split at h <;> cases h
        · cases h
      · cases h
    · cases h
  | finish =>
    simp only [demux] at h
    split at h
    · simp at h
    · cases h
  | delete =>
    simp only [demux] at h
    split at h
    · simp at h
    · cases h

end Stream

/-! ## The table over a run -/

/-- While a RESET is handled, the table holds no other session than the one that was found;
once that is closed, no session under the StreamID runs. -/
structure Registry (s : Server α) : Prop where
  stored : ∀ id, (s.stream id).Stored
  found : ∀ p rAddr i, s.loop = .found p rAddr i → p.type = .reset →
    ∀ j, (s.stream p.streamID).current = some j → j = i
  reset : ∀ id, s.loop = .reset id → ∀ j, ¬ (s.stream id).Running j

section Registry

variable {rs : ReedSolomon} {pc : PepConfig} {s s' : Server α} {e : ServerEvent α}
  {out : List (Reply α)}

theorem Server.set_stream (s : Server α) (id id' : UInt16) (loop : DemuxLoop α) (st : Stream α) :
    (s.set id loop st).stream id' = if id' = id then st else s.stream id' := by
  simp [Server.set, Function.update_apply]

theorem registry_init : Registry ({} : Server α) := by
  refine ⟨?_, by simp, by simp⟩
  rintro id i ⟨o, ho, -⟩
  simp at ho

theorem Registry.lookup {rAddr : α} {p : Packet} (h : Registry s) :
    Registry (s.set p.streamID ((s.stream p.streamID).lookup rAddr p).1
      ((s.stream p.streamID).lookup rAddr p).2) := by
  have hst := h.stored p.streamID
  refine ⟨?_, ?_, ?_⟩
  · intro id
    rw [Server.set_stream]
    split
    · unfold Stream.lookup
      split
      · exact hst
      · split <;> exact hst
    · exact h.stored id
  · intro q rAddr' i hloop ht j hj
    replace hloop : ((s.stream p.streamID).lookup rAddr p).1 = .found q rAddr' i := hloop
    rw [Server.set_stream] at hj
    unfold Stream.lookup at hloop hj
    split at hloop
    · rename_i i' hi'
      cases hloop
      simp only [hi', ↓reduceIte] at hj
      exact (Option.some.inj hj).symm
    · split at hloop <;> cases hloop
  · intro id hloop
    replace hloop : ((s.stream p.streamID).lookup rAddr p).1 = .reset id := hloop
    unfold Stream.lookup at hloop
    split at hloop
    · cases hloop
    · split at hloop <;> cases hloop

theorem Registry.demux {id : UInt16} {ev : DemuxEvent} {loop : DemuxLoop α} {st : Stream α}
    (h : Registry s) (hev : (s.stream id).demux rs pc id s.loop ev = some (loop, st, out)) :
    Registry (s.set id loop st) := by
  have hh := Stream.demux_handled hev
  refine ⟨?_, ?_, ?_⟩
  · intro id'
    rw [Server.set_stream]
    split
    · exact (h.stored id).handled hh fun hloop => h.reset id hloop
    · exact h.stored id'
  · intro p rAddr i hloop
    replace hloop : loop = .found p rAddr i := hloop
    subst hloop
    generalize s.loop = loop at hh
    cases hh with
    | handle _ _ _ _ _ _ _ _ hloop => simp at hloop
  · intro id' hloop j hj
    replace hloop : loop = .reset id' := hloop
    subst hloop
    obtain ⟨rfl, p, rAddr, i, hloop, ht, hid, hne⟩ := Stream.demux_reset hev
    rw [Server.set_stream, if_pos rfl] at hj
    have hcur := h.stored id' j (hh.running hj)
    rw [← hid] at hcur
    exact hne j hj (h.found p rAddr i hloop ht j hcur)

theorem Registry.moved {id : UInt16} {ev : StreamEvent} {st : Stream α} (h : Registry s)
    (hok : Undisturbed s (.stream id ev)) (hm : Stream.Moved rs pc id (s.stream id) ev st out) :
    Registry (s.set id s.loop st) := by
  have hreg : s.Resetting id → ∀ k, ev ≠ .register k := by
    rintro hr k rfl
    exact hok hr
  refine ⟨?_, ?_, ?_⟩
  · intro id'
    rw [Server.set_stream]
    split
    · exact (h.stored id).moved hm
    · exact h.stored id'
  · intro p rAddr i hloop ht j hj
    replace hloop : s.loop = .found p rAddr i := hloop
    rw [Server.set_stream] at hj
    split at hj
    · rename_i hid
      have hcur := hm.current_of_kept hj (hreg (by simp [Server.Resetting, hloop, ht, hid]))
      rw [← hid] at hcur
      exact h.found p rAddr i hloop ht j hcur
    · exact h.found p rAddr i hloop ht j hj
  · intro id' hloop j hj
    replace hloop : s.loop = .reset id' := hloop
    rw [Server.set_stream] at hj
    split at hj
    · rename_i hid
      subst hid
      exact h.reset id' hloop j (hm.running hj (hreg (by simp [Server.Resetting, hloop])))
    · exact h.reset id' hloop j hj

/-- Whoever runs is in the table after a step as well, as long as no one takes the entry of a live
session. -/
theorem Registry.step (h : Registry s) (hok : Undisturbed s e)
    (hs : s.step rs pc e = some (s', out)) :
    Registry s' := by
  rcases Server.step_cases hs with ⟨rAddr, a, err, rfl, -, -, rfl, rfl⟩ |
    ⟨rAddr, a, p, rfl, -, -, rfl, rfl⟩ | ⟨id, ev, loop, st, rfl, hev, rfl⟩ | ⟨id, ev, st, rfl, hev,
      rfl⟩
  · exact h
  · exact h.lookup
  · exact h.demux hev
  · exact h.moved hok (Stream.step_moved hev)

end Registry

/-- **The registry.** As long as no session is registered under a StreamID while a RESET for it
is handled, every session that has been registered and not been cancelled is the one in
the table. When a RESET closes the session it found, the table has no other one, and when
it deletes the entry, all sessions under the StreamID are closed. -/
theorem registered_stored {rs : ReedSolomon} {pc : PepConfig} {s : Server α}
    (hr : Reach (server rs pc) Undisturbed s) :
    (∀ id i o, (s.stream id).served[i]? = some o → o.session.cancelled = false →
      (s.stream id).current = some i) ∧
    (∀ p rAddr i, s.loop = .found p rAddr i → p.type = .reset →
      ∀ j, (s.stream p.streamID).current = some j → j = i) ∧
    ∀ id, s.loop = .reset id → ∀ (j : Nat) (o : Served α), (s.stream id).served[j]? = some o →
      o.session.cancelled = true := by
  have h : Registry s := by
    refine hr.invariant registry_init fun s e s' h hok hs => ?_
    obtain ⟨⟨_, out⟩, hstep, rfl⟩ := Option.map_eq_some_iff.mp hs
    exact h.step hok hstep
  refine ⟨fun id i o ho hc => h.stored id i ⟨o, ho, hc⟩, h.found, fun id hloop j o ho => ?_⟩
  exact Bool.eq_true_of_not_eq_false fun hc => h.reset id hloop j ⟨o, ho, hc⟩

theorem registered_stored_small :
    ∃ s : Server Nat, Reach (server reedSolomonTwoOne smallPep) Undisturbed s ∧
      (s.stream 1).served.map (fun o => o.session.cancelled) = [true, false] ∧
      (s.stream 1).current = some 1 := by
  obtain ⟨s, hr, hserved⟩ : ∃ s : Server Nat,
      Reach (server reedSolomonTwoOne smallPep) Undisturbed s ∧
      (s.stream 1).served.map (fun o => o.session.cancelled) = [true, false] :=
    Reach.exists_of_runOk _ (establish 5001 1 65 ++ [.recv 5001 (resetDatagram 1),
      .demux 1 .dispatch, .demux 1 .delete] ++ (establish 5001 1 65).take 4) (by decide +kernel)
  obtain ⟨o, ho, hc⟩ : ∃ o, (s.stream 1).served[1]? = some o ∧ o.session.cancelled = false := by
    have hget := congrArg (fun l => l[1]?) hserved
    simpa using hget
  exact ⟨s, hr, hserved, (registered_stored hr).1 1 1 o ho hc⟩

/-- Two copies of a CONNECT are dialled. The first is registered; a RESET finds and closes its
session. Before the RESET deletes the entry, the second is registered. -/
def resetBetween : List (ServerEvent Nat) :=
  [.recv 5001 (connectDatagram 1 65), .recv 5001 (connectDatagram 1 65), .stream 1 (.dialOk 0),
    .stream 1 (.sendAck 0), .stream 1 (.dialOk 1), .stream 1 (.sendAck 1), .stream 1 (.register 0),
    .recv 5001 (resetDatagram 1), .demux 1 .dispatch, .stream 1 (.register 0),
    .stream 1 (.act 1 .launch),
    .demux 1 .delete]

/-- **An orphan.** The second session runs, and the table has no entry for it. -/
theorem reset_orphans :
    ∃ s : Server Nat, Reach (server reedSolomonTwoOne smallPep) (fun _ _ => True) s ∧
      (s.stream 1).served.map (fun o => (o.session.cancelled, o.session.launched)) =
        [(true, false), (false, true)] ∧
      (s.stream 1).current = none :=
  Reach.exists_of_runOk _ resetBetween (by decide +kernel)

end TcpPep
