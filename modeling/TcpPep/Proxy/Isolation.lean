import TcpPep.Fec.TwoOne
import TcpPep.Proxy.Server

/-!
Several clients at one server.

The server finds a session by its StreamID alone, so two clients are separate
exactly as far as their StreamIDs are.

* `Filed`: under each StreamID there is only what its owner has asked for;
* `Agree.own`, `Agree.foreign`: a step for someone else's StreamID is not seen, a step
  for one's own is seen in full;
* `clients_isolated`: with one owner for each StreamID, a client cannot tell whether
  the others send anything;
* `clients_interfere`: two clients with the same StreamID.
-/

namespace TcpPep

open Protocol Fec Events

variable {α : Type}

/-- The StreamID the loop works for. -/
def DemuxLoop.id : DemuxLoop α → Option UInt16
  | .read => none
  | .found p _ _ => some p.streamID
  | .handler id _ => some id
  | .reset id => some id

/-- A packet comes from the owner of its StreamID. -/
def ServerEvent.Owned (owner : UInt16 → α) : ServerEvent α → Prop
  | .recv rAddr a => ∀ p ∈ (readUDP a).toOption, owner p.streamID = rAddr
  | _ => True

instance [DecidableEq α] (owner : UInt16 → α) (e : ServerEvent α) : Decidable (e.Owned owner) :=
  match e with
  | .recv rAddr a =>
    inferInstanceAs (Decidable (∀ p ∈ (readUDP a).toOption, owner p.streamID = rAddr))
  | .demux _ _ => .isTrue trivial
  | .stream _ _ => .isTrue trivial

theorem ServerEvent.Owned.recv {owner : UInt16 → α} {rAddr : α} {a : Bytes} {p : Packet}
    (h : (ServerEvent.recv rAddr a).Owned owner) (hread : readUDP a = .ok p) :
    owner p.streamID = rAddr :=
  h p (by rw [hread]; rfl)

section Owned

variable {rs : ReedSolomon} {pc : PepConfig} {owner : UInt16 → α} {s s' t : Server α}
  {e : ServerEvent α} {out : List (Reply α)} {y : α}

/-! ## Everything is filed under its owner -/

/-- What is kept under a StreamID was made for its owner. -/
def Stream.For (y : α) (st : Stream α) : Prop :=
  (∀ o ∈ st.served, o.peer = y) ∧ ∀ c ∈ st.connects, c.clientAddr = y

structure Filed (owner : UInt16 → α) (s : Server α) : Prop where
  stream : ∀ id, (s.stream id).For (owner id)
  found : ∀ p rAddr i, s.loop = .found p rAddr i → owner p.streamID = rAddr

/-- A goroutine keeps the stream filed and answers its owner only. -/
theorem Stream.For.moved {st st' : Stream α} {id : UInt16} {ev : StreamEvent}
    (hm : Stream.Moved rs pc id st ev st' out) (h : st.For y) :
    st'.For y ∧ ∀ r ∈ out, r.rAddr = y := by
  refine ⟨⟨fun o ho => ?_, fun c hc => ?_⟩, fun r hr => ?_⟩
  · obtain ⟨i, hi⟩ := List.mem_iff_getElem?.mp ho
    refine hm.served (Q := fun _ o => o.peer = y) ?_ ?_ ?_ ?_ i o hi
    · exact fun _ _ hy => hy
    · exact fun _ _ _ _ _ _ _ hy => hy
    · exact fun c hc => h.2 c hc
    · exact fun _ o ho => h.1 o (List.mem_of_getElem? ho)
  · obtain ⟨c', hc', -, haddr⟩ := hm.connects hc
    rw [← haddr]
    exact h.2 c' hc'
  · cases hm with
    | dialFail k msg dest clientAddr hk | sendAck k dest clientAddr hk =>
      rw [List.mem_singleton.mp hr]
      exact h.2 _ (List.mem_of_getElem? hk)
    | act i e o session sent ho hown hs =>
      obtain ⟨a, -, rfl⟩ := List.mem_map.mp hr
      exact h.1 o (List.mem_of_getElem? ho)
    | dialOk | register | cleanup => cases hr

/-- The demultiplexer keeps the stream filed and answers its owner only. -/
theorem Stream.For.handled {st st' : Stream α} {id : UInt16} {loop loop' : DemuxLoop α}
    (hh : Stream.Handled rs pc id st loop loop' st' out) (h : st.For (owner id))
    (hfound : ∀ p rAddr i, loop = .found p rAddr i → owner p.streamID = rAddr) :
    st'.For (owner id) ∧ (∀ p rAddr i, loop' ≠ .found p rAddr i) ∧
    ∀ r ∈ out, r.rAddr = owner id := by
  constructor
  · refine ⟨fun o ho => ?_, hh.connects ▸ h.2⟩
    obtain ⟨i, hi⟩ := List.mem_iff_getElem?.mp ho
    refine hh.served (Q := fun _ o => o.peer = owner id) ?_ ?_ ?_ i o hi
    · exact fun _ _ _ hy => hy
    · exact fun _ _ hy => hy
    · exact fun _ o ho => h.1 o (List.mem_of_getElem? ho)
  · cases hh with
    | reack p rAddr i o ho hid ht =>
      have hr := hfound p rAddr i rfl
      rw [hid] at hr
      simp [Reply.rAddr, hr]
    | handle p rAddr i o loop' ho hid ht hloop =>
      rcases hloop with rfl | rfl | rfl <;> simp
    | finish i => simp
    | delete => simp

theorem Filed.set {id : UInt16} {loop : DemuxLoop α} {st : Stream α} (h : Filed owner s)
    (hst : st.For (owner id)) (hfound : ∀ p rAddr i, loop = .found p rAddr i →
      owner p.streamID = rAddr) :
    Filed owner (s.set id loop st) := by
  refine ⟨fun id' => ?_, hfound⟩
  by_cases hid : id' = id
  · subst hid
    simpa [Server.set] using hst
  · simpa [Server.set, hid] using h.stream id'

/-- **Step lemma.** What a step sends goes to the owner of the StreamID it is for. -/
theorem Filed.step (h : Filed owner s) (hown : e.Owned owner)
    (hs : s.step rs pc e = some (s', out)) :
    Filed owner s' ∧
      ∀ r ∈ out, ∃ id, ((∃ ev, e = .demux id ev) ∨ ∃ ev, e = .stream id ev) ∧
      r.rAddr = owner id := by
  rcases Server.step_cases hs with ⟨rAddr, a, err, rfl, -, -, rfl, rfl⟩ |
    ⟨rAddr, a, p, rfl, hread, hloop, rfl, rfl⟩ | ⟨id, ev, loop, st, rfl, hev, rfl⟩ | ⟨id, ev, st,
      rfl, hev, rfl⟩
  · exact ⟨h, by simp⟩
  · refine ⟨?_, by simp⟩
    have hp : owner p.streamID = rAddr := hown.recv hread
    have hst := h.stream p.streamID
    unfold Stream.lookup
    split
    · refine h.set hst ?_
      rintro _ _ _ ⟨⟩
      exact hp
    · split
      · refine h.set ⟨hst.1, fun c hc => ?_⟩ (by simp)
        rcases List.mem_append.mp hc with hc | hc
        · exact hst.2 c hc
        · rw [List.mem_singleton.mp hc, hp]
      · exact h.set hst (by simp)
  · obtain ⟨hst, hloop, hout⟩ := (h.stream id).handled (Stream.demux_handled hev) h.found
    exact ⟨h.set hst fun p rAddr i heq => absurd heq (hloop p rAddr i),
      fun r hr => ⟨id, Or.inl ⟨ev, rfl⟩, hout r hr⟩⟩
  · obtain ⟨hst, hout⟩ := (h.stream id).moved (Stream.step_moved hev)
    exact ⟨h.set hst h.found, fun r hr => ⟨id, Or.inr ⟨ev, rfl⟩, hout r hr⟩⟩

/-! ## Two runs -/

theorem Stream.lookup_loop (st : Stream α) (rAddr : α) (p : Packet) :
    (st.lookup rAddr p).1 = .read ∨ (st.lookup rAddr p).1.id = some p.streamID := by
  unfold Stream.lookup
  split
  · exact Or.inr rfl
  · split <;> exact Or.inl rfl

theorem Stream.Handled.loop {st st' : Stream α} {id : UInt16} {loop loop' : DemuxLoop α}
    (h : Stream.Handled rs pc id st loop loop' st' out) :
    loop.id = some id ∧ (loop' = .read ∨ loop'.id = some id) := by
  cases h with
  | reack p rAddr i o ho hid ht => exact ⟨congrArg some hid, Or.inl rfl⟩
  | handle p rAddr i o loop' ho hid ht hloop =>
    refine ⟨congrArg some hid, ?_⟩
    rcases hloop with rfl | rfl | rfl
    · exact Or.inl rfl
    · exact Or.inr rfl
    · exact Or.inr rfl
  | finish i => exact ⟨rfl, Or.inl rfl⟩
  | delete => exact ⟨rfl, Or.inl rfl⟩

end Owned

section View

variable [DecidableEq α] {rs : ReedSolomon} {pc : PepConfig} {owner : UInt16 → α}
  {s s' t : Server α} {e : ServerEvent α} {out : List (Reply α)} {y : α}

/-- The loop as it looks when only the StreamIDs of `y` are seen. -/
def DemuxLoop.view (owner : UInt16 → α) (y : α) (loop : DemuxLoop α) : DemuxLoop α :=
  if loop.id.any (fun id => owner id = y) then loop else .read

/-- The packets of `y` and the steps for its StreamIDs. -/
def ServerEvent.concerns (owner : UInt16 → α) (y : α) : ServerEvent α → Bool
  | .recv rAddr _ => rAddr = y
  | .demux id _ => owner id = y
  | .stream id _ => owner id = y

/-- `t` is what `y` sees of `s`. -/
structure Agree (owner : UInt16 → α) (y : α) (s t : Server α) : Prop where
  stream : ∀ id, owner id = y → t.stream id = s.stream id
  loop : t.loop = s.loop.view owner y

theorem DemuxLoop.view_of_id {loop : DemuxLoop α} {id : UInt16} (h : loop.id = some id)
    (hid : owner id = y) :
    loop.view owner y = loop := by
  simp [DemuxLoop.view, h, hid]

theorem DemuxLoop.view_of_ne {loop : DemuxLoop α} {id : UInt16}
    (h : loop = .read ∨ loop.id = some id) (hid : owner id ≠ y) : loop.view owner y = .read := by
  rcases h with rfl | h
  · simp [DemuxLoop.view, DemuxLoop.id]
  · simp [DemuxLoop.view, h, hid]

theorem Agree.set_foreign {id : UInt16} {loop : DemuxLoop α} {st : Stream α} (h : Agree owner y s t)
    (hid : owner id ≠ y) (hloop : loop.view owner y = s.loop.view owner y) :
    Agree owner y (s.set id loop st) t := by
  refine ⟨fun id' hid' => ?_, h.loop.trans hloop.symm⟩
  have hne : id' ≠ id := by
    rintro rfl
    exact hid hid'
  simpa [Server.set, hne] using h.stream id' hid'

theorem Agree.set_own {id : UInt16} {loop : DemuxLoop α} {st : Stream α} (h : Agree owner y s t)
    {loop' : DemuxLoop α} (hloop : loop' = loop.view owner y) :
    Agree owner y (s.set id loop st) (t.set id loop' st) := by
  refine ⟨fun id' hid' => ?_, hloop⟩
  by_cases hne : id' = id
  · simp [Server.set, hne]
  · simpa [Server.set, hne] using h.stream id' hid'

/-- A step for someone else is not seen. -/
theorem Agree.foreign (h : Agree owner y s t) (hown : e.Owned owner)
    (he : e.concerns owner y = false) (hs : s.step rs pc e = some (s', out)) :
    Agree owner y s' t := by
  rcases Server.step_cases hs with ⟨rAddr, a, err, rfl, -, -, rfl, rfl⟩ |
    ⟨rAddr, a, p, rfl, hread, hloop, rfl, rfl⟩ | ⟨id, ev, loop, st, rfl, hev, rfl⟩ | ⟨id, ev, st,
      rfl, hev, rfl⟩
  · exact h
  · have hid : owner p.streamID ≠ y := by
      rw [hown.recv hread]
      simpa [ServerEvent.concerns] using he
    apply h.set_foreign hid
    rw [DemuxLoop.view_of_ne (Stream.lookup_loop _ _ _) hid, hloop,
      DemuxLoop.view_of_ne (Or.inl rfl) hid]
  · have hid : owner id ≠ y := by simpa [ServerEvent.concerns] using he
    obtain ⟨hloop, hloop'⟩ := (Stream.demux_handled hev).loop
    apply h.set_foreign hid
    rw [DemuxLoop.view_of_ne hloop' hid, DemuxLoop.view_of_ne (Or.inr hloop) hid]
  · exact h.set_foreign (by simpa [ServerEvent.concerns] using he) rfl

/-- A step for oneself is seen in full. -/
theorem Agree.own (h : Agree owner y s t) (hown : e.Owned owner) (he : e.concerns owner y = true)
    (hs : s.step rs pc e = some (s', out)) :
    ∃ t', t.step rs pc e = some (t', out) ∧ Agree owner y s' t' := by
  rcases Server.step_cases hs with ⟨rAddr, a, err, rfl, hread, hloop, rfl, rfl⟩ |
    ⟨rAddr, a, p, rfl, hread, hloop, rfl, rfl⟩ | ⟨id, ev, loop, st, rfl, hev, rfl⟩ | ⟨id, ev, st,
      rfl, hev, rfl⟩
  · have ht : t.loop = .read := by rw [h.loop, hloop]; rfl
    exact ⟨t, by simp [Server.step, ht, hread], h⟩
  · have ht : t.loop = .read := by rw [h.loop, hloop]; rfl
    have hid : owner p.streamID = y := by
      rw [hown.recv hread]
      simpa [ServerEvent.concerns] using he
    refine ⟨_, by simp only [Server.step, ht, hread]; rfl, ?_⟩
    rw [h.stream _ hid]
    apply h.set_own
    rcases Stream.lookup_loop (s.stream p.streamID) rAddr p with hr | hr
    · rw [hr]
      rfl
    · rw [DemuxLoop.view_of_id hr hid]
  · have hid : owner id = y := by simpa [ServerEvent.concerns] using he
    obtain ⟨hloop, hloop'⟩ := (Stream.demux_handled hev).loop
    have ht : t.loop = s.loop := by rw [h.loop, DemuxLoop.view_of_id hloop hid]
    refine ⟨t.set id loop st, by simp [Server.step, h.stream id hid, ht, hev], h.set_own ?_⟩
    rcases hloop' with rfl | hloop'
    · rfl
    · rw [DemuxLoop.view_of_id hloop' hid]
  · have hid : owner id = y := by simpa [ServerEvent.concerns] using he
    exact ⟨t.set id t.loop st, by simp [Server.step, h.stream id hid, hev], h.set_own h.loop⟩

/-- **Run lemma.** Without the packets of the others `y` sees the same run. -/
theorem Agree.run {es : List (ServerEvent α)} (hes : ∀ e ∈ es, e.Owned owner)
    (hfiled : Filed owner s) (h : Agree owner y s t) (hrun : s.run rs pc es = some (s', out)) :
    Filed owner s' ∧ ∃ t',
      t.run rs pc (es.filter (ServerEvent.concerns owner y)) =
        some (t', out.filter fun r => r.rAddr = y) ∧ Agree owner y s' t' := by
  induction es generalizing s t out with
  | nil =>
    simp only [Server.run, Option.some.injEq, Prod.mk.injEq] at hrun
    obtain ⟨rfl, rfl⟩ := hrun
    exact ⟨hfiled, t, rfl, h⟩
  | cons e es ih =>
    simp only [Server.run, Option.bind_eq_some_iff, Option.map_eq_some_iff, Prod.exists,
      Prod.mk.injEq] at hrun
    obtain ⟨s₁, out₁, hs, s₂, out₂, hrest, rfl, rfl⟩ := hrun
    have hown := hes e List.mem_cons_self
    have hes' : ∀ e ∈ es, e.Owned owner := fun e he => hes e (List.mem_cons_of_mem _ he)
    obtain ⟨hfiled₁, hout⟩ := hfiled.step hown hs
    rw [List.filter_append]
    cases he : e.concerns owner y with
    | false =>
      have hnone : out₁.filter (fun r => r.rAddr = y) = [] := by
        rw [List.filter_eq_nil_iff]
        intro r hr
        obtain ⟨id, hid, hr⟩ := hout r hr
        rcases hid with ⟨ev, rfl⟩ | ⟨ev, rfl⟩ <;> simpa [ServerEvent.concerns, hr] using he
      obtain ⟨hfiled', t', ht', hag⟩ := ih hes' hfiled₁ (h.foreign hown he hs) hrest
      exact ⟨hfiled', t', by rw [List.filter_cons_of_neg (by simp [he]), ht', hnone,
        List.nil_append], hag⟩
    | true =>
      have hall : out₁.filter (fun r => r.rAddr = y) = out₁ := by
        rw [List.filter_eq_self]
        intro r hr
        obtain ⟨id, hid, hr⟩ := hout r hr
        rcases hid with ⟨ev, rfl⟩ | ⟨ev, rfl⟩ <;> simpa [ServerEvent.concerns, hr] using he
      obtain ⟨t₁, ht₁, hag₁⟩ := h.own hown he hs
      obtain ⟨hfiled', t', ht', hag⟩ := ih hes' hfiled₁ hag₁ hrest
      refine ⟨hfiled', t', ?_, hag⟩
      rw [List.filter_cons_of_pos he]
      simp [Server.run, ht₁, ht', hall]

end View

/-! ## Acknowledgements -/

/-- A session for `y` has been made under this StreamID, or is about to be. -/
def Stream.MadeFor (y : α) (st : Stream α) : Prop :=
  (∃ o ∈ st.served, o.peer = y) ∨ ∃ c ∈ st.connects, c.clientAddr = y ∧ c.stage = .register

section Acked

variable {rs : ReedSolomon} {pc : PepConfig} {s s' : Server α} {e : ServerEvent α}
  {out : List (Reply α)} {y : α}

theorem Stream.update_served_peers (st : Stream α) (i : Nat) (f : Session → Session) :
    (st.update i f).served.map Served.peer = st.served.map Served.peer := by
  apply List.ext_getElem?
  intro j
  simp only [Stream.update, List.getElem?_map, List.getElem?_modify, Option.map_eq_map,
    Option.map_map]
  congr 1
  funext o
  simp only [Function.comp]
  split <;> rfl

theorem Stream.closeCurrent_served_peers (st : Stream α) :
    st.closeCurrent.served.map Served.peer = st.served.map Served.peer := by
  unfold Stream.closeCurrent
  split
  · exact st.update_served_peers _ _
  · rfl

theorem Stream.madeFor_iff {st : Stream α} :
    st.MadeFor y ↔ y ∈ st.served.map Served.peer ∨ ∃ c ∈ st.connects, c.clientAddr = y ∧
    c.stage = .register := by
  simp [Stream.MadeFor, List.mem_map]

theorem Stream.MadeFor.moved {st st' : Stream α} {id : UInt16} {ev : StreamEvent}
    (hm : Stream.Moved rs pc id st ev st' out) (h : st.MadeFor y) : st'.MadeFor y := by
  rw [Stream.madeFor_iff] at h ⊢
  -- an entry that waits to register is not the one a dial step works on
  have hother : ∀ {k : Nat} {c c' : Connecting α}, st.connects[k]? = some c → c.stage ≠ .register →
      c'.stage = .register → c' ∈ st.connects →
      c' ∈ st.connects.eraseIdx k ∧ ∀ d, c' ∈ st.connects.set k d := by
    intro k c c' hk hne hc' hmem
    obtain ⟨j, hj⟩ := List.mem_iff_getElem?.mp hmem
    have hjk : j ≠ k := by
      rintro rfl
      obtain rfl : c = c' := Option.some.inj (hk.symm.trans hj)
      exact hne hc'
    refine ⟨List.mem_eraseIdx_iff_getElem?.mpr ⟨j, hjk, hj⟩, fun d => ?_⟩
    exact List.mem_of_getElem? (by rw [List.getElem?_set_ne (Ne.symm hjk), hj])
  cases hm with
  | dialOk k dest clientAddr hk =>
    rcases h with h | ⟨c, hc, hy, hst⟩
    · exact Or.inl h
    · exact Or.inr ⟨c, (hother hk (by simp) hst hc).2 _, hy, hst⟩
  | dialFail k msg dest clientAddr hk =>
    rcases h with h | ⟨c, hc, hy, hst⟩
    · exact Or.inl h
    · exact Or.inr ⟨c, (hother hk (by simp) hst hc).1, hy, hst⟩
  | sendAck k dest clientAddr hk =>
    rcases h with h | ⟨c, hc, hy, hst⟩
    · exact Or.inl h
    · exact Or.inr ⟨c, (hother hk (by simp) hst hc).2 _, hy, hst⟩
  | register k dest clientAddr hk =>
    simp only [List.map_append, List.mem_append, Stream.closeCurrent_served_peers,
      Stream.closeCurrent_connects]
    rcases h with h | ⟨c, hc, hy, hst⟩
    · exact Or.inl (Or.inl h)
    · obtain ⟨j, hj⟩ := List.mem_iff_getElem?.mp hc
      by_cases hjk : j = k
      · subst hjk
        obtain rfl : c = _ := Option.some.inj (hj.symm.trans hk)
        exact Or.inl (Or.inr (by simpa using hy.symm))
      · exact Or.inr ⟨c, List.mem_eraseIdx_iff_getElem?.mpr ⟨j, hjk, hj⟩, hy, hst⟩
  | act i e o session sent ho hown hs =>
    rwa [Stream.update_served_peers]
  | cleanup i hi =>
    simpa only [Stream.closeCurrent_served_peers, Stream.closeCurrent_connects] using h

theorem Stream.MadeFor.handled {st st' : Stream α} {id : UInt16} {loop loop' : DemuxLoop α}
    (hh : Stream.Handled rs pc id st loop loop' st' out) (h : st.MadeFor y) : st'.MadeFor y := by
  cases hh with
  | reack p rAddr i o ho hid ht => exact h
  | handle p rAddr i o loop' ho hid ht hloop =>
    rw [Stream.madeFor_iff] at h ⊢
    rwa [Stream.update_served_peers]
  | finish i =>
    rw [Stream.madeFor_iff] at h ⊢
    rwa [Stream.update_served_peers]
  | delete => exact h

theorem Server.step_madeFor (hs : s.step rs pc e = some (s', out)) {id : UInt16}
    (h : (s.stream id).MadeFor y) :
    (s'.stream id).MadeFor y := by
  refine Server.step_stream (P := fun id' st => id' = id → st.MadeFor y) hs ?_ ?_ ?_ ?_ id rfl
  · intro rAddr a p _ _ hst hid
    replace hst := hst hid
    unfold Stream.lookup
    split
    · exact hst
    · split
      · refine hst.imp_right ?_
        rintro ⟨c, hc, hy⟩
        exact ⟨c, List.mem_append_left _ hc, hy⟩
      · exact hst
  · exact fun _ _ _ _ _ _ hh hst hid => (hst hid).handled hh
  · exact fun _ _ _ _ _ hm hst hid => (hst hid).moved hm
  · rintro id' rfl
    exact h

/-- A CONN_ACK to the owner of a StreamID announces a session for it. -/
theorem Filed.acked {owner : UInt16 → α} (hf : Filed owner s) (hs : s.step rs pc e = some (s', out))
    {id : UInt16} {peer : α} {dest : Bytes} (ha : .ack y id peer dest ∈ out) :
    (s'.stream id).MadeFor y := by
  rcases Server.step_cases hs with ⟨rAddr, a, err, rfl, -, -, rfl, rfl⟩ |
    ⟨rAddr, a, p, rfl, hread, hloop, rfl, rfl⟩ | ⟨id', ev, loop, st, rfl, hev, rfl⟩ | ⟨id', ev, st,
      rfl, hev, rfl⟩
  · cases ha
  · cases ha
  · have hh := Stream.demux_handled hev
    generalize hloop : s.loop = l at hh
    cases hh with
    | reack p rAddr i o ho hid ht =>
      simp only [List.mem_singleton, Reply.ack.injEq] at ha
      obtain ⟨rfl, rfl, rfl, rfl⟩ := ha
      have hpeer := (hf.stream id).1 o (List.mem_of_getElem? ho)
      have hfound := hf.found p y i hloop
      rw [hid] at hfound
      refine Or.inl ⟨o, ?_, hpeer.trans hfound⟩
      simpa [Server.set] using List.mem_of_getElem? ho
    | handle => cases ha
    | finish => cases ha
    | delete => cases ha
  · have hm := Stream.step_moved hev
    cases hm with
    | sendAck k dest' clientAddr hk =>
      simp only [List.mem_singleton, Reply.ack.injEq] at ha
      obtain ⟨rfl, rfl, rfl, rfl⟩ := ha
      have hlt := (List.getElem?_eq_some_iff.mp hk).1
      refine Or.inr ⟨⟨dest, peer, .register⟩, ?_, rfl, rfl⟩
      simp only [Server.set, Function.update_self]
      exact List.mem_of_getElem? (List.getElem?_set_self hlt)
    | dialFail => simp at ha
    | act => simp at ha
    | dialOk => cases ha
    | register => cases ha
    | cleanup => cases ha

theorem Filed.run_acked {owner : UInt16 → α} {es : List (ServerEvent α)}
    (hes : ∀ e ∈ es, e.Owned owner) (hf : Filed owner s) (hrun : s.run rs pc es = some (s', out))
    {id : UInt16} (h : (s.stream id).MadeFor y ∨ ∃ peer dest, .ack y id peer dest ∈ out) :
    (s'.stream id).MadeFor y := by
  induction es generalizing s out with
  | nil =>
    simp only [Server.run, Option.some.injEq, Prod.mk.injEq] at hrun
    obtain ⟨rfl, rfl⟩ := hrun
    exact h.resolve_right (by simp)
  | cons e es ih =>
    simp only [Server.run, Option.bind_eq_some_iff, Option.map_eq_some_iff, Prod.exists,
      Prod.mk.injEq] at hrun
    obtain ⟨s₁, out₁, hs, s₂, out₂, hrest, rfl, rfl⟩ := hrun
    have hes' : ∀ e ∈ es, e.Owned owner := fun e he => hes e (List.mem_cons_of_mem _ he)
    refine ih hes' (hf.step (hes e List.mem_cons_self) hs).1 hrest ?_
    rcases h with h | ⟨peer, dest, ha⟩
    · exact Or.inl (Server.step_madeFor hs h)
    · rcases List.mem_append.mp ha with ha | ha
      · exact Or.inl (hf.acked hs ha)
      · exact Or.inr ⟨peer, dest, ha⟩

end Acked

theorem filed_init (owner : UInt16 → α) : Filed owner ({} : Server α) :=
  ⟨fun _ => ⟨by simp, by simp⟩, by simp⟩

/-- **Isolation.** Suppose that every packet comes from the owner of its StreamID. Then
the streams of `y`, and all that is sent to `y`, are the same in the run without the
packets of the others; every session belongs to the owner of its StreamID; and `y` gets
a CONN_ACK only for a session made for `y`. -/
theorem clients_isolated [DecidableEq α] {rs : ReedSolomon} {pc : PepConfig} (owner : UInt16 → α)
    {es : List (ServerEvent α)} (hes : ∀ e ∈ es, e.Owned owner) {s : Server α}
    {out : List (Reply α)} (hrun : Server.run rs pc {} es = some (s, out)) (y : α) :
    (∃ t, Server.run rs pc {} (es.filter (ServerEvent.concerns owner y)) =
        some (t, out.filter fun r => r.rAddr = y) ∧ ∀ id, owner id = y →
        t.stream id = s.stream id) ∧
      (∀ id, ∀ o ∈ (s.stream id).served, o.peer = owner id) ∧
      ∀ id peer dest, .ack y id peer dest ∈ out → (s.stream id).MadeFor y := by
  have hag : Agree owner y ({} : Server α) {} := ⟨fun _ _ => rfl, rfl⟩
  obtain ⟨hfiled, t, ht, hagree⟩ := hag.run hes (filed_init owner) hrun
  refine ⟨⟨t, ht, hagree.stream⟩, fun id => (hfiled.stream id).1, fun id peer dest ha => ?_⟩
  exact (filed_init owner).run_acked hes hrun (Or.inr ⟨peer, dest, ha⟩)

/-! ## Two clients -/

def smallPep : PepConfig := { mtu := 100, bandwidth := 0, fecK := 2, fecM := 1 }

/-- CONNECT for one StreamID below 256, to a target with a one-byte name. -/
def connectDatagram (id name : UInt8) : Bytes := [0x00, id, 1, name]

def resetDatagram (id : UInt8) : Bytes := [0x50, id]

/-- A first CONNECT is answered, its session registered and launched. -/
def establish (rAddr : Nat) (id name : UInt8) : List (ServerEvent Nat) :=
  [.recv rAddr (connectDatagram id name), .stream id.toUInt16 (.dialOk 0),
    .stream id.toUInt16 (.sendAck 0), .stream id.toUInt16 (.register 0),
    .stream id.toUInt16 (.act 0 .launch)]

/-- Client 5001 owns StreamID 1, the others belong to client 5002. -/
def smallOwner (id : UInt16) : Nat := if id = 1 then 5001 else 5002

theorem clients_isolated_small :
    ∃ s out t, Server.run reedSolomonTwoOne smallPep {}
        (establish 5001 1 65 ++ establish 5002 2 66 ++ [.recv 5002 (resetDatagram 2),
          .demux 2 .dispatch, .demux 2 .delete]) = some (s, out) ∧
      Server.run reedSolomonTwoOne smallPep {} (establish 5001 1 65) =
        some (t, out.filter fun r => r.rAddr = 5001) ∧ t.stream 1 = s.stream 1 := by
  obtain ⟨s, out, hrun⟩ : ∃ s out, Server.run reedSolomonTwoOne smallPep {} (establish 5001 1 65 ++
      establish 5002 2 66 ++ [.recv 5002 (resetDatagram 2), .demux 2 .dispatch, .demux 2 .delete]) =
        some (s, out) := ⟨_, _, rfl⟩
  obtain ⟨⟨t, ht, hstream⟩, -⟩ := clients_isolated smallOwner (by decide +kernel) hrun 5001
  exact ⟨s, out, t, hrun, ht, hstream 1 rfl⟩

/-- Client 5002 sends CONNECT and RESET with the StreamID of client 5001. -/
def intrude : List (ServerEvent Nat) :=
  [.recv 5002 (connectDatagram 1 66), .demux 1 .dispatch, .recv 5002 (resetDatagram 1),
    .demux 1 .dispatch, .demux 1 .delete]

/-- **Interference.** The session of client 5001 is closed by client 5002, which is sent a
CONN_ACK without a session of its own. -/
theorem clients_interfere :
    ∃ s out t out', Server.run reedSolomonTwoOne smallPep {}
      (establish 5001 1 65 ++ intrude) = some (s, out) ∧ Server.run reedSolomonTwoOne smallPep {}
      (establish 5001 1 65) = some (t, out') ∧ (t.stream 1).served.map
      (fun o => (o.peer, o.session.cancelled)) = [(5001, false)] ∧ (s.stream 1).served.map
      (fun o => (o.peer, o.session.cancelled)) = [(5001, true)] ∧ (s.stream 1).connects = [] ∧
      .ack 5002 1 5001 [65] ∈ out := by
  refine ⟨_, _, _, _, rfl, rfl, ?_, ?_, ?_, ?_⟩
  all_goals decide +kernel

end TcpPep
