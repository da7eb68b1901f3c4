import TcpPep.Proxy.Shutdown

/-!
The end of the CLOSE retransmission.

A CLOSE is not acknowledged. The goroutine that repeats it stops when the CLOSE of the
peer has come, and so does `Close`, which `HandleClose` calls once both flags are set.
Neither looks at whether the peer has got a CLOSE.

* `Session.Closing`, `Session.Closing.step`: a session is stopped by the three steps of
  `Session.Stops` and by no other;
* `close_agreement`: no end stops before its peer has received a CLOSE, exactly as long
  as each of these steps comes after that;
* `last_close_lost`: the end that closes second sends one CLOSE and stops; it is lost.
-/

namespace TcpPep

open Protocol Fec FiniteMap Events

/-- The goroutine has sent its first CLOSE. -/
def Closer.sent : Closer → Bool
  | .idle | .first => false
  | _ => true

namespace Sender

/-- The steps after which the CLOSE goroutine does not send again. -/
def Stops (s : Sender) : TxEvent → Prop
  | .closeFinish => s.closer = .finish true
  | .closeTick => s.closeRecv = true
  | _ => False

instance (s : Sender) (e : TxEvent) : Decidable (s.Stops e) := by
  unfold Stops
  split <;> infer_instance

variable {rs : ReedSolomon} {cfg : Config} {s : Sender}

theorem readTCP_closer (data : Bytes) : (s.readTCP rs cfg data).closer = s.closer ∧
    (s.readTCP rs cfg data).closeSent = s.closeSent ∧
    (s.readTCP rs cfg data).closeRecv = s.closeRecv := by
  obtain ⟨timer, loose, heq⟩ := readTCP_eq rs cfg s data
  rw [heq]
  split
  · exact ⟨rfl, rfl, rfl⟩
  · exact ⟨flush_closer .., flush_closeSent .., flush_closeRecv ..⟩

end Sender

/-! ## One session -/

/-- No cancellation from outside, no TCP read error, and no RESET. -/
def SessionEvent.NoReset : SessionEvent → Prop
  | .cancel | .tx .readError => False
  | .recv p => p.type ≠ .reset
  | _ => True

instance (e : SessionEvent) : Decidable e.NoReset := by
  unfold SessionEvent.NoReset
  split <;> infer_instance

namespace Session

/-- The session has sent CLOSE and will not send it again. -/
def Stopped (s : Session) : Prop :=
  s.tx.closer.sent = true ∧ (s.cancelled = true ∨ s.tx.closer = .returned)

instance (s : Session) : Decidable s.Stopped :=
  inferInstanceAs (Decidable (s.tx.closer.sent = true ∧
    (s.cancelled = true ∨ s.tx.closer = .returned)))

/-- The steps that end the retransmission: the end of `HandleClose` with both flags set, the
goroutine after its first CLOSE with both flags set, and its tick once `closeRecv` is set. -/
def Stops (s : Session) : SessionEvent → Prop
  | .finishHandler => s.demux = .closing true
  | .tx e => s.tx.Stops e
  | _ => False

instance (s : Session) (e : SessionEvent) : Decidable (s.Stops e) := by
  unfold Stops
  split <;> infer_instance

/-- How far the CLOSE goroutine is when a flag is set or the context is cancelled. -/
structure Closing (s : Session) : Prop where
  fresh : s.launched = false → s.tx.closer = .idle
  reader : s.tx.closer ≠ .idle → s.tx.reader = .returned
  marked : s.tx.closeSent = true → s.tx.closer.sent = true
  handler : s.demux = .closing true → s.tx.closer.sent = true
  cancelled : s.cancelled = true → s.tx.closer.sent = true

/-- What a step without RESET does to a session that closes. -/
structure Closes (s : Session) (e : SessionEvent) (s' : Session) : Prop where
  closing : s'.Closing
  stopped_iff : s'.Stopped ↔ s.Stopped ∨ s.Stops e
  closeRecv : s.tx.closeRecv = true → s'.tx.closeRecv = true

variable {rs : ReedSolomon} {cfg : Config} {s s' : Session}

theorem closing_new (cfg : Config) : (newSession cfg).Closing where
  fresh _ := rfl
  reader h := absurd rfl h
  marked h := by cases h
  handler h := by cases h
  cancelled h := by cases h

theorem Closing.keep (h : s.Closing) {e : SessionEvent} (hstop : ¬ s.Stops e)
    (hcloser : s'.tx.closer = s.tx.closer) (hsent : s'.tx.closeSent = s.tx.closeSent)
    (hrecv : s.tx.closeRecv = true → s'.tx.closeRecv = true)
    (hreader : s.tx.closer ≠ .idle → s'.tx.reader = .returned)
    (hlaunched : s'.launched = false → s.launched = false) (hdemux : s'.demux = .closing true →
      s.tx.closer.sent = true) (hcancelled : s'.cancelled = s.cancelled) :
    s.Closes e s' where
  closing := by
    constructor
    · intro hl
      rw [hcloser]
      exact h.fresh (hlaunched hl)
    · rw [hcloser]
      exact hreader
    · rw [hcloser, hsent]
      exact h.marked
    · rw [hcloser]
      exact hdemux
    · rw [hcloser, hcancelled]
      exact h.cancelled
  stopped_iff := by
    simp only [Stopped, hcloser, hcancelled, hstop, or_false]
  closeRecv := hrecv

theorem Closing.close (h : s.Closing) (hsent : s.tx.closer.sent = true) : s.close.Closing :=
  ⟨h.fresh, h.reader, h.marked, h.handler, fun _ => hsent⟩

theorem Closing.handle (h : s.Closing) {p : Packet} (hp : p.type ≠ .reset) :
    s.Closes (.recv p) (s.handle rs cfg p) := by
  unfold Session.handle
  split
  · exact h.keep id rfl rfl id h.reader id h.handler rfl
  · split
    · exact h.keep id rfl rfl id h.reader id (by simp) rfl
    · exact h.keep id rfl rfl id h.reader id h.handler rfl
  · obtain ⟨m, ok, blocks, size, interval, heq, -⟩ := Sender.handleLQR_eq cfg s.tx p
    rw [heq]
    exact h.keep id rfl rfl id h.reader id h.handler rfl
  · refine h.keep id rfl rfl (fun _ => rfl) h.reader id ?_ rfl
    intro hd
    exact h.marked (by simpa using hd)
  · rename_i ht
    exact absurd ht hp
  · exact h.keep id rfl rfl id h.reader id h.handler rfl

theorem Closing.finishHandler (h : s.Closing) : s.Closes .finishHandler s.finishHandler := by
  unfold Session.finishHandler
  split
  · rename_i hd
    exact h.keep (by simp [Stops, hd]) rfl rfl id h.reader id h.handler rfl
  · rename_i p hd
    exact h.keep (by simp [Stops, hd]) rfl rfl id h.reader id (by simp) rfl
  · rename_i bothClosed hd
    cases bothClosed with
    | false => exact h.keep (by simp [Stops, hd]) rfl rfl id h.reader id (by simp) rfl
    | true =>
      have hsent := h.handler hd
      have hidle : Closing { s with demux := .idle } :=
        ⟨h.fresh, h.reader, h.marked, by simp, h.cancelled⟩
      exact ⟨hidle.close hsent, ⟨fun _ => Or.inr hd, fun _ => ⟨hsent, Or.inl rfl⟩⟩, id⟩

/-- A goroutine that still runs is stopped by the context only. -/
theorem stopped_iff_cancelled (hsent : s.tx.closer.sent = true) (hne : s.tx.closer ≠ .returned) :
    s.Stopped ↔ s.cancelled = true :=
  ⟨fun h => h.2.resolve_right hne, fun h => ⟨hsent, Or.inl h⟩⟩

theorem Closing.advance (h : s.Closing) (hl : s.launched = true) (hne : s.tx.closer ≠ .idle)
    (closer : Closer) (hc : closer.sent = true) (closeSent : Bool) :
    Closing { s with tx := { s.tx with closer, closeSent } } where
  fresh hf := by
    rw [hl] at hf
    cases hf
  reader _ := h.reader hne
  marked _ := hc
  handler _ := hc
  cancelled _ := hc

/-- The reader returns and the goroutine begins: no CLOSE has been sent before. -/
theorem Closing.begin (h : s.Closing) (hl : s.launched = true) (hidle : s.tx.closer = .idle)
    {e : TxEvent} (hstop : ¬ s.tx.Stops e) :
    s.Closes (.tx e) { s with tx := { s.tx with reader := .returned, closer := .first } } := by
  have hnone : s.tx.closer.sent ≠ true := by simp [hidle, Closer.sent]
  refine ⟨⟨?_, fun _ => rfl, ?_, ?_, ?_⟩, ?_, id⟩
  · intro hf
    exact absurd (hl.symm.trans hf) (by simp)
  · exact fun hm => absurd (h.marked hm) hnone
  · exact fun hd => absurd (h.handler hd) hnone
  · exact fun hc => absurd (h.cancelled hc) hnone
  · constructor
    · exact fun hst => absurd hst.1 (by simp [Closer.sent])
    · rintro (hst | hst)
      · exact absurd hst.1 hnone
      · exact absurd hst hstop

/-- **Step lemma of the sending half**, for the steps that do not call `Close`. -/
theorem Closing.tx (h : s.Closing) (hl : s.launched = true) {e : TxEvent} {eff : Effect Sender}
    (hs : Sender.Stepped rs cfg s.cancelled s.tx e eff) (hclose : eff.close = false) :
    s.Closes (.tx e) { s with tx := eff.state } := by
  have hrun : s.tx.reader ≠ .returned → s.tx.closer = .idle := by
    intro hr
    by_contra hc
    exact hr (h.reader hc)
  cases hs with
  | check hr hd hq =>
    exact h.keep id rfl rfl id (fun hc => absurd (hrun (by simp [hr])) hc) id h.handler rfl
  | read data hr hne hle =>
    obtain ⟨hcloser, hsent, hrecv⟩ := @Sender.readTCP_closer rs cfg s.tx data
    exact h.keep id hcloser hsent (fun hr => hrecv.trans hr)
      (fun hc => absurd (hrun (by simp [hr])) hc) id h.handler rfl
  | eof hr =>
    exact h.keep id rfl rfl id (fun hc => absurd (hrun (by simp [hr])) hc) id h.handler rfl
  | readError hr => cases hclose
  | finFlush hr hd =>
    exact h.keep id (Sender.flush_closer ..) (Sender.flush_closeSent ..)
      (fun hr => (Sender.flush_closeRecv ..).trans hr)
      (fun hc => absurd (hrun (by simp [hr])) hc) id h.handler rfl
  | finDrain hr hq =>
    exact h.keep id rfl rfl id (fun hc => absurd (hrun (by simp [hr])) hc) id h.handler rfl
  | finAcked hr ha => exact h.begin hl (hrun (by simp [hr])) id
  | finTimeout hr => exact h.begin hl (hrun (by simp [hr])) id
  | readerQuit hq hd => exact h.keep id rfl rfl id (fun _ => rfl) id h.handler rfl
  | timerRun hc =>
    exact h.keep id (Sender.flush_closer ..) (Sender.flush_closeSent ..)
      (fun hr => (Sender.flush_closeRecv ..).trans hr)
      (fun hc => (Sender.flush_reader ..).trans (h.reader hc)) id h.handler rfl
  | closeSend hc =>
    have hnone : s.tx.closer.sent ≠ true := by simp [hc, Closer.sent]
    refine ⟨h.advance hl (by simp [hc]) .mark rfl s.tx.closeSent, ?_, id⟩
    constructor
    · rintro ⟨-, hcan | hret⟩
      · exact absurd (h.cancelled hcan) hnone
      · cases hret
    · rintro (hst | hst)
      · exact absurd hst.1 hnone
      · cases hst
  | closeMark hc =>
    refine ⟨h.advance hl (by simp [hc]) (.finish s.tx.closeRecv) rfl true, ?_, id⟩
    rw [stopped_iff_cancelled rfl (by simp),
      stopped_iff_cancelled (by simp [hc, Closer.sent]) (by simp [hc])]
    exact ⟨Or.inl, fun hst => hst.resolve_right id⟩
  | closeBoth hc => cases hclose
  | closeLoop hc =>
    have hstop : ¬ s.Stops (.tx .closeFinish) := by simp [Stops, Sender.Stops, hc]
    refine ⟨h.advance hl (by simp [hc]) .loop rfl s.tx.closeSent, ?_, id⟩
    rw [stopped_iff_cancelled rfl (by simp),
      stopped_iff_cancelled (by simp [hc, Closer.sent]) (by simp [hc])]
    exact ⟨Or.inl, fun hst => hst.resolve_right hstop⟩
  | closeAnswered hc hr =>
    have hadv := h.advance hl (by simp [hc]) .returned rfl s.tx.closeSent
    exact ⟨hadv, ⟨fun _ => Or.inr hr, fun _ => ⟨rfl, Or.inr rfl⟩⟩, id⟩
  | closeAgain hc hr =>
    have hstop : ¬ s.Stops (.tx .closeTick) := by simp [Stops, Sender.Stops, hr]
    exact h.keep hstop rfl rfl id h.reader id h.handler rfl
  | closeQuit hc hd =>
    have hadv := h.advance hl (by simp [hc]) .returned rfl s.tx.closeSent
    exact ⟨hadv, ⟨fun _ => Or.inl ⟨by simp [hc, Closer.sent], Or.inl hd⟩,
      fun _ => ⟨rfl, Or.inr rfl⟩⟩, id⟩
  | _ => exact h.keep id rfl rfl id h.reader id h.handler rfl

theorem Closing.txClose (h : s.Closing) (hl : s.launched = true) {e : TxEvent} {eff : Effect Sender}
    (hs : Sender.Stepped rs cfg s.cancelled s.tx e eff) (hclose : eff.close = true)
    (he : e ≠ .readError) :
    s.Closes (.tx e) (Session.close { s with tx := eff.state }) := by
  cases hs with
  | readError hr => exact absurd rfl he
  | closeBoth hc =>
    have hadv := h.advance hl (by simp [hc]) .returned rfl s.tx.closeSent
    exact ⟨hadv.close rfl, ⟨fun _ => Or.inr hc, fun _ => ⟨rfl, Or.inl rfl⟩⟩, id⟩
  | _ => cases hclose

theorem Closing.step (h : s.Closing) {e : SessionEvent} (he : e.NoReset) {out : List Bytes}
    (hs : s.step rs cfg e = some (s', out)) : s.Closes e s' := by
  cases stepped_of_step hs with
  | launch hl =>
    have hidle := h.fresh hl
    exact h.keep id rfl rfl id (fun hc => absurd hidle hc) (by simp) h.handler rfl
  | tx e eff hl hclose heff => exact h.tx hl heff hclose
  | txClose e eff hl hclose heff =>
    refine h.txClose hl heff hclose ?_
    rintro rfl
    exact he
  | recv p hd => exact h.handle he
  | finishHandler hd => exact h.finishHandler
  | cancel => exact absurd he id
  | _ => exact h.keep id rfl rfl id h.reader id h.handler rfl

end Session

/-! ## Two sessions -/

/-- The datagram is read as a RESET. -/
def isReset (a : Bytes) : Bool :=
  match readUDP a with
  | .ok p => decide (p.type = .reset)
  | .error _ => false

/-- No cancellation from outside, no TCP read error, and no RESET that arrives. -/
def NoReset (s : Link) : LinkEvent → Prop
  | .act _ e => e.NoReset
  | .deliver y i _ => ∀ a ∈ (s.net y)[i]?, isReset a = false
  | .drop _ _ => True

instance (s : Link) (e : LinkEvent) : Decidable (NoReset s e) := by
  unfold NoReset
  split <;> infer_instance

/-- A session that stops its retransmission does so after its peer has received a CLOSE. -/
def StopsAnswered (s : Link) : LinkEvent → Prop
  | .act x e => (s.session x).Stops e → (s.session x.other).tx.closeRecv = true
  | _ => True

instance (s : Link) (e : LinkEvent) : Decidable (StopsAnswered s e) := by
  unfold StopsAnswered
  split <;> infer_instance

/-- The peer of every session that has stopped has received a CLOSE. -/
def CloseAgreed (s : Link) : Prop :=
  ∀ x, (s.session x).Stopped → (s.session x.other).tx.closeRecv = true

section Agreement

variable {rs : ReedSolomon} {lc : LinkConfig} {s s₀ s' : Link}

theorem CloseAgreed.feed (h : CloseAgreed s) (hclosing : ∀ z, (s.session z).Closing) {x : Side}
    {ev : SessionEvent} (hev : ev.NoReset) (hses : s₀.session = s.session)
    (hf : s₀.feed rs lc x ev = some s') :
    (∀ z, (s'.session z).Closing) ∧
      (CloseAgreed s' ↔ ((s.session x).Stops ev → (s.session x.other).tx.closeRecv = true)) := by
  simp only [Link.feed, Option.map_eq_some_iff, Prod.exists] at hf
  obtain ⟨sx, out, hstep, rfl⟩ := hf
  rw [hses] at hstep
  have hcl := (hclosing x).step hev hstep
  have hself : Function.update s₀.session x sx x = sx := Function.update_self ..
  have hother : Function.update s₀.session x sx x.other = s.session x.other := by
    rw [Function.update_of_ne (Side.other_ne x), hses]
  constructor
  · intro z
    rcases Side.eq_or_eq_other x z with rfl | rfl
    · simp only [hself]
      exact hcl.closing
    · simp only [hother]
      exact hclosing _
  · constructor
    · intro hagree hstop
      have hx := hagree x
      simp only [hself, hother] at hx
      exact hx (hcl.stopped_iff.mpr (Or.inr hstop))
    · intro hans z hz
      rcases Side.eq_or_eq_other x z with rfl | rfl
      · simp only [hself, hother] at hz ⊢
        rcases hcl.stopped_iff.mp hz with hz | hz
        · exact h _ hz
        · exact hans hz
      · simp only [Side.other_other, hself, hother] at hz ⊢
        have hrecv := h _ hz
        rw [Side.other_other] at hrecv
        exact hcl.closeRecv hrecv

/-- **Step lemma of the link.** A step without RESET keeps the agreement exactly if a session that
stops by it has been heard. -/
theorem CloseAgreed.step_iff (h : CloseAgreed s) (hclosing : ∀ z, (s.session z).Closing)
    {e : LinkEvent} (hok : NoReset s e) (hs : s.step rs lc e = some s') :
    (∀ z, (s'.session z).Closing) ∧ (CloseAgreed s' ↔ StopsAnswered s e) := by
  by_cases hact : ∃ x ev, e = .act x ev
  · obtain ⟨x, ev, rfl⟩ := hact
    cases ev with
    | recv p => cases hs
    | _ => exact h.feed hclosing hok rfl hs
  · have hans : StopsAnswered s e := by
      cases e with
      | act x ev => exact absurd ⟨x, ev, rfl⟩ hact
      | _ => trivial
    rcases Link.step_cases hs with ⟨x, ev, rfl, -⟩ |
      ⟨y, i, again, a, p, s₀, rfl, ha, hp, hses, -, hf⟩ | ⟨hses, -⟩
    · exact absurd ⟨x, ev, rfl⟩ hact
    · have hreset : p.type ≠ .reset := by
        intro ht
        have hno := hok a ha
        simp [isReset, hp, ht] at hno
      obtain ⟨hclosing', hiff⟩ :=
        @CloseAgreed.feed rs lc s s₀ s' h hclosing y (.recv p) hreset hses hf
      exact ⟨hclosing', fun _ => hans, fun _ => hiff.mpr fun hstop => absurd hstop id⟩
    · refine ⟨fun z => hses ▸ hclosing z, fun _ => hans, fun _ z hz => ?_⟩
      rw [hses] at hz ⊢
      exact h z hz

end Agreement

/-- **Close agreement.** In every run without RESET and without a cancellation from outside, over a
network that drops, repeats and reorders: no session has stopped sending CLOSE before its
peer has received one, as long as each of the three steps that stop it comes after that;
and the first such step that comes before breaks it. -/
theorem close_agreement {rs : ReedSolomon} {lc : LinkConfig} {s : Link}
    (hr : Reach (link rs lc) (fun s e => NoReset s e ∧ StopsAnswered s e) s) :
    CloseAgreed s ∧
    ∀ e s', NoReset s e → (link rs lc).step s e = some s' →
    (CloseAgreed s' ↔ StopsAnswered s e) := by
  obtain ⟨hclosing, hagree⟩ : (∀ z, (s.session z).Closing) ∧ CloseAgreed s := by
    induction hr with
    | init =>
      refine ⟨fun z => Session.closing_new _, ?_⟩
      intro x hx
      exact absurd hx.1 (by simp [link, newSession, newSender, Closer.sent])
    | step _ hok hs ih =>
      obtain ⟨hclosing, hiff⟩ := ih.2.step_iff ih.1 hok.1 hs
      exact ⟨hclosing, hiff.mpr hok.2⟩
  exact ⟨hagree, fun e s' hok hs => (hagree.step_iff hclosing hok hs).2⟩

/-- The left end reads EOF and sends CLOSE. -/
def leftCloses : List LinkEvent :=
  [.act .left (.tx .check), .act .left (.tx .eof), .act .left (.tx .finFlush),
    .act .left (.tx .finDrain), .act .left (.tx .finAcked), .act .left (.tx .closeSend),
    .act .left (.tx .closeMark), .act .left (.tx .closeFinish)]

/-- The right end, which has received CLOSE, reads EOF and sends its own. -/
def rightAnswers : List LinkEvent :=
  [.act .right (.tx .check), .act .right (.tx .eof), .act .right (.tx .finFlush),
    .act .right (.tx .finDrain), .act .right (.tx .finAcked), .act .right (.tx .closeSend),
    .act .right (.tx .closeMark)]

/-- The second CLOSE arrives before its sender has gone on. -/
theorem close_agreement_small :
    ∃ s, Reach (link reedSolomonTwoOne smallLink) (fun s e => NoReset s e ∧ StopsAnswered s e) s ∧
      (s.session .right).Stopped ∧ (s.session .left).tx.closeRecv = true := by
  obtain ⟨s, hr, hstopped⟩ :
      ∃ s, Reach (link reedSolomonTwoOne smallLink) (fun s e => NoReset s e ∧ StopsAnswered s e) s ∧
        (s.session .right).Stopped :=
    Reach.exists_of_runOk _ (bothStart ++ leftCloses ++ closeArrives ++ rightAnswers ++
      [.deliver .left 0 false, .act .right (.tx .closeFinish)]) (by decide +kernel)
  exact ⟨s, hr, hstopped, (close_agreement hr).1 .right hstopped⟩

/-- **The last CLOSE is lost.** The left end closes and the right end receives its CLOSE. Then the
right end closes: it sends one CLOSE, which is lost, finds both flags set and cancels
itself. Nothing is on its way to the left end, which has received no CLOSE and goes on
sending its own to a session that is gone. -/
theorem last_close_lost :
    ∃ s, Reach (link reedSolomonTwoOne smallLink) NoReset s ∧
      (s.session .right).cancelled = true ∧ (s.session .right).tx.closer = .returned ∧
      (s.session .right).tx.closeSent = true ∧ s.net .left = [] ∧
      (s.session .left).tx.closeRecv = false ∧ (s.session .left).tx.closer = .loop ∧
      ¬ CloseAgreed s := by
  obtain ⟨s, hr, hcan, hret, hsent, hnet, hrecv, hloop⟩ :
      ∃ s, Reach (link reedSolomonTwoOne smallLink) NoReset s ∧
        (s.session .right).cancelled = true ∧ (s.session .right).tx.closer = .returned ∧
        (s.session .right).tx.closeSent = true ∧ s.net .left = [] ∧
        (s.session .left).tx.closeRecv = false ∧ (s.session .left).tx.closer = .loop :=
    Reach.exists_of_runOk _ (bothStart ++ leftCloses ++ closeArrives ++ rightAnswers ++
      [.drop .left 0, .act .right (.tx .closeFinish)]) (by decide +kernel)
  refine ⟨s, hr, hcan, hret, hsent, hnet, hrecv, hloop, ?_⟩
  intro hagree
  have hleft := hagree .right ⟨by rw [hret]; rfl, Or.inl hcan⟩
  exact absurd (hrecv.symm.trans hleft) (by simp)

end TcpPep
