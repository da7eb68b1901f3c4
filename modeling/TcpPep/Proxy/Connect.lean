import TcpPep.Proxy.Isolation

/-!
Retransmitted CONNECTs.

A CONNECT is answered again when its session is in the table. Before that, each
copy starts a `handleConnect` of its own, which ends by replacing the session of
the copy before it.

* `Single`: one session, made or in the making;
* `connect_idempotent`: when no copy arrives between the first one and its
  registration, nor after the session has left the table, there is one connection
  and no copy touches its session;
* `connect_twice`: two copies before the registration.
-/

namespace TcpPep

open Protocol Fec Events

variable {α : Type}

/-- A CONNECT for `id` is the first one, or finds its session in the table. -/
def FirstOrKnown (id : UInt16) (s : Server α) : ServerEvent α → Prop
  | .recv _ a => ∀ p ∈ (readUDP a).toOption, p.streamID = id → p.type = .connect →
      (s.stream id).connects.length + (s.stream id).served.length = 0 ∨
      (s.stream id).current.isSome = true
  | _ => True

instance (id : UInt16) (s : Server α) (e : ServerEvent α) : Decidable (FirstOrKnown id s e) :=
  match e with
  | .recv _ a =>
    inferInstanceAs (Decidable (∀ p ∈ (readUDP a).toOption, p.streamID = id → p.type = .connect →
      (s.stream id).connects.length + (s.stream id).served.length = 0 ∨
      (s.stream id).current.isSome = true))
  | .demux _ _ => .isTrue trivial
  | .stream _ _ => .isTrue trivial

/-- The steps that work on a copy of a CONNECT for `id`: the demultiplexer's and those of
`handleConnect`. -/
inductive CopyStep (id : UInt16) (s : Server α) : ServerEvent α → Prop
  | recv (rAddr : α) (a : Bytes) (p : Packet) (hread : readUDP a = .ok p) (hid : p.streamID = id)
      (ht : p.type = .connect) : CopyStep id s (.recv rAddr a)
  | dispatch (p : Packet) (rAddr : α) (i : Nat) (hloop : s.loop = .found p rAddr i)
      (ht : p.type = .connect) :
      CopyStep id s (.demux id .dispatch)
  | dialOk (k : Nat) : CopyStep id s (.stream id (.dialOk k))
  | dialFail (k : Nat) (msg : Bytes) : CopyStep id s (.stream id (.dialFail k msg))
  | sendAck (k : Nat) : CopyStep id s (.stream id (.sendAck k))
  | register (k : Nat) : CopyStep id s (.stream id (.register k))

/-- At most one session has been made or is in the making, and the table knows no other. -/
structure Single (st : Stream α) : Prop where
  one : st.served.length + st.connects.length ≤ 1
  made : ∀ i, st.current = some i → i < st.served.length

section Single

variable {rs : ReedSolomon} {pc : PepConfig} {id : UInt16} {st st' : Stream α}
  {out : List (Reply α)} {s s' : Server α} {e : ServerEvent α}

theorem Single.moved {ev : StreamEvent} (hm : Stream.Moved rs pc id st ev st' out) (h : Single st) :
    Single st' := by
  obtain ⟨hone, hmade⟩ := h
  cases hm with
  | dialOk k dest clientAddr hk => exact ⟨by simpa using hone, hmade⟩
  | dialFail k msg dest clientAddr hk =>
    have hlt := (List.getElem?_eq_some_iff.mp hk).1
    refine ⟨?_, hmade⟩
    simp only [List.length_eraseIdx, hlt, ↓reduceIte]
    omega
  | sendAck k dest clientAddr hk => exact ⟨by simpa using hone, hmade⟩
  | register k dest clientAddr hk =>
    have hlt := (List.getElem?_eq_some_iff.mp hk).1
    constructor
    · simp only [List.length_append, Stream.length_closeCurrent_served, List.length_singleton,
        Stream.closeCurrent_connects, List.length_eraseIdx, hlt, ↓reduceIte]
      omega
    · rintro i ⟨⟩
      simp
  | act i e o session sent ho hown hs => exact ⟨by simpa using hone, by simpa using hmade⟩
  | cleanup i hi => exact ⟨by simpa using hone, by simp⟩

theorem Single.handled {loop loop' : DemuxLoop α}
    (hh : Stream.Handled rs pc id st loop loop' st' out) (h : Single st) : Single st' := by
  obtain ⟨hone, hmade⟩ := h
  cases hh with
  | reack p rAddr i o ho hid ht => exact ⟨hone, hmade⟩
  | handle p rAddr i o loop' ho hid ht hloop => exact ⟨by simpa using hone, by simpa using hmade⟩
  | finish i => exact ⟨by simpa using hone, by simpa using hmade⟩
  | delete => exact ⟨hone, by simp⟩

theorem Single.step (h : Single (s.stream id)) (hok : FirstOrKnown id s e)
    (hs : s.step rs pc e = some (s', out)) : Single (s'.stream id) := by
  refine Server.step_stream (P := fun id' st => id' = id → Single st) hs ?_ ?_ ?_ ?_ id rfl
  · rintro rAddr a p rfl hread hst hid
    replace hst := hst hid
    subst hid
    unfold Stream.lookup
    split
    · exact hst
    · rename_i hnone
      split
      · rename_i ht
        -- the first copy: nothing has been made yet
        have hfirst := (hok p (by rw [hread]; rfl) rfl ht).resolve_right (by simp [hnone])
        refine ⟨?_, by simp [hnone]⟩
        simp only [List.length_append, List.length_singleton]
        omega
      · exact hst
  · exact fun _ _ _ _ _ _ hh hst hid => (hst hid).handled hh
  · exact fun _ _ _ _ _ hm hst hid => (hst hid).moved hm
  · rintro id' rfl
    exact h

theorem CopyStep.keeps (hc : CopyStep id s e) (h : Single (s.stream id))
    (hs : s.step rs pc e = some (s', out)) :
    (s.stream id).served <+: (s'.stream id).served ∧
      ∀ i, (s.stream id).current = some i → (s'.stream id).current = some i := by
  rcases Server.step_cases hs with ⟨rAddr, a, err, rfl, hread, -, rfl, rfl⟩ |
    ⟨rAddr, a, p, rfl, hread, hloop, rfl, rfl⟩ | ⟨id', ev, loop, st, rfl, hev, rfl⟩ | ⟨id', ev, st,
      rfl, hev, rfl⟩
  · exact ⟨List.prefix_refl _, fun i hi => hi⟩
  · cases hc with
    | recv _ _ p' hread' hid ht =>
      obtain rfl : p = p' := Except.ok.inj (hread.symm.trans hread')
      subst hid
      simp only [Server.set, Function.update_self]
      unfold Stream.lookup
      split
      · exact ⟨List.prefix_refl _, fun i hi => hi⟩
      · split <;> exact ⟨List.prefix_refl _, fun i hi => hi⟩
  · cases hc with
    | dispatch p rAddr i hloop ht =>
      have hh := Stream.demux_handled hev
      rw [hloop] at hh
      simp only [Server.set, Function.update_self]
      cases hh with
      | reack => exact ⟨List.prefix_refl _, fun i hi => hi⟩
      | handle _ _ _ o _ ho hid ht' hloop' => exact absurd ht ht'
  · have hm := Stream.step_moved hev
    cases hc with
    | dialOk k =>
      cases hm
      simp only [Server.set, Function.update_self]
      exact ⟨List.prefix_refl _, fun i hi => hi⟩
    | dialFail k msg =>
      cases hm
      simp only [Server.set, Function.update_self]
      exact ⟨List.prefix_refl _, fun i hi => hi⟩
    | sendAck k =>
      cases hm
      simp only [Server.set, Function.update_self]
      exact ⟨List.prefix_refl _, fun i hi => hi⟩
    | register k =>
      cases hm with
      | register _ dest clientAddr hk =>
        -- the `handleConnect` that registers is the only thing there is
        have hlt := (List.getElem?_eq_some_iff.mp hk).1
        have hone := h.one
        have hnil : (s.stream id).served = [] := List.eq_nil_of_length_eq_zero (by omega)
        refine ⟨by rw [hnil]; exact List.nil_prefix, fun i hi => ?_⟩
        have hmade := h.made i hi
        rw [hnil] at hmade
        cases hmade

end Single

/-- **Idempotence.** As long as every CONNECT for `id` is the first one or finds its session
in the table, at most one `handleConnect` and session exist for it, and no step that
works on a copy closes or replaces that session. -/
theorem connect_idempotent {rs : ReedSolomon} {pc : PepConfig} {id : UInt16} {s : Server α}
    (hr : Reach (server rs pc) (FirstOrKnown id) s) :
    (s.stream id).served.length + (s.stream id).connects.length ≤ 1 ∧
      ∀ e s', CopyStep id s e → (server rs pc).step s e = some s' →
        (s.stream id).served <+: (s'.stream id).served ∧
          ∀ i, (s.stream id).current = some i → (s'.stream id).current = some i := by
  have hsingle : Single (s.stream id) := by
    refine hr.invariant (I := fun s => Single (s.stream id)) ⟨Nat.zero_le _, by simp [server]⟩ ?_
    intro s e s' h hok hs
    obtain ⟨⟨_, out⟩, hstep, rfl⟩ := Option.map_eq_some_iff.mp hs
    exact h.step hok hstep
  refine ⟨hsingle.one, fun e s' hc hs => ?_⟩
  obtain ⟨⟨_, out⟩, hstep, rfl⟩ := Option.map_eq_some_iff.mp hs
  exact hc.keeps hsingle hstep

theorem connect_idempotent_small :
    ∃ s, Reach (server reedSolomonTwoOne smallPep) (FirstOrKnown 1) s ∧
      (s.stream 1).served.map (fun o => (o.peer, o.dest, o.session.cancelled)) =
        [(5001, [65], false)] ∧
      (s.stream 1).served.length + (s.stream 1).connects.length ≤ 1 := by
  obtain ⟨s, hr, hserved⟩ : ∃ s, Reach (server reedSolomonTwoOne smallPep) (FirstOrKnown 1) s ∧
      (s.stream 1).served.map (fun o => (o.peer, o.dest, o.session.cancelled)) =
      [(5001, [65], false)] :=
    Reach.exists_of_runOk _ (establish 5001 1 65 ++ [.recv 5001 (connectDatagram 1 65),
      .demux 1 .dispatch])
      (by decide +kernel)
  exact ⟨s, hr, hserved, (connect_idempotent hr).1⟩

/-- All datagrams are copies of one. -/
def Copies (rAddr : Nat) (a : Bytes) : ServerEvent Nat → Prop
  | .recv rAddr' a' => rAddr' = rAddr ∧ a' = a
  | _ => True

instance (rAddr : Nat) (a : Bytes) (e : ServerEvent Nat) : Decidable (Copies rAddr a e) :=
  match e with
  | .recv rAddr' a' => inferInstanceAs (Decidable (rAddr' = rAddr ∧ a' = a))
  | .demux _ _ => .isTrue trivial
  | .stream _ _ => .isTrue trivial

/-- The second copy arrives while the first is being dialled. -/
def twoCopies : List (ServerEvent Nat) :=
  [.recv 5001 (connectDatagram 1 65), .recv 5001 (connectDatagram 1 65), .stream 1 (.dialOk 0),
    .stream 1 (.sendAck 0), .stream 1 (.register 0), .stream 1 (.act 0 .launch),
    .stream 1 (.dialOk 0),
    .stream 1 (.sendAck 0), .stream 1 (.register 0)]

/-- **Two sessions for one handshake.** The second copy dials again, closes the session of
the first and takes its place. -/
theorem connect_twice :
    ∃ s, Reach (server reedSolomonTwoOne smallPep)
      (fun _ e => Copies 5001 (connectDatagram 1 65) e) s ∧ (s.stream 1).served.map
      (fun o => (o.dest, o.session.cancelled)) = [([65], true), ([65], false)] ∧
      (s.stream 1).current = some 1 :=
  Reach.exists_of_runOk _ twoCopies (by decide +kernel)

end TcpPep
