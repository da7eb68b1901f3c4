import Mathlib.Logic.Function.Basic
import TcpPep.Lib.Machine
import TcpPep.Proxy.Delivery

/-!
Two sessions over a network that drops, duplicates, delays and reorders.

A `Link` is the two sessions of one stream and, for each end, the datagrams on
their way to it. An event is a step of a goroutine at one end, the arrival of a
datagram, or its loss.

* `LinkInv`: the invariant of both directions;
* `LinkInv.step`: the step lemma, for arrivals less than half a turn behind the
  writer and less than a turn ahead of it;
* `stream_safety`: what is written is a prefix of what was read.
-/

namespace TcpPep

open Protocol Fec FiniteMap ErasureCode Events

structure Link where
  session : Side → Session
  net : Side → List Bytes

inductive LinkEvent where
  /-- a goroutine of the session at `x` takes a step -/
  | act (x : Side) (e : SessionEvent)
  /-- datagram `i` on its way to `y` arrives, and may arrive again -/
  | deliver (y : Side) (i : Nat) (again : Bool)
  /-- datagram `i` on its way to `y` is lost -/
  | drop (y : Side) (i : Nat)
  deriving DecidableEq

namespace Link

variable (rs : ReedSolomon) (lc : LinkConfig)

/-- A step of the session at `x`; what it sends goes to the other end. -/
def feed (s : Link) (x : Side) (e : SessionEvent) : Option Link :=
  ((s.session x).step rs (lc.side x) e).map fun r =>
    { session := Function.update s.session x r.1
      net := Function.update s.net x.other (s.net x.other ++ r.2) }

/-- Take datagram `i` to `y` off the network. -/
def remove (s : Link) (y : Side) (i : Nat) : Link :=
  { s with net := Function.update s.net y ((s.net y).eraseIdx i) }

def step (s : Link) : LinkEvent → Option Link
  | .act x e =>
    match e with
    | .recv _ => none
    | e => s.feed rs lc x e
  | .deliver y i again =>
    match (s.net y)[i]? with
    | none => none
    | some a =>
      let s := if again then s else s.remove y i
      match readUDP a with
      | .error _ => some s
      | .ok p => if p.streamID = lc.streamID then s.feed rs lc y (.recv p) else some s
  | .drop y i => if i < (s.net y).length then some (s.remove y i) else none

end Link

/-- The machine of one link. -/
def link (rs : ReedSolomon) (lc : LinkConfig) : Machine Link LinkEvent where
  init := { session := fun x => newSession (lc.side x), net := fun _ => [] }
  step := Link.step rs lc

/-! ## Conditions on arrivals -/

/-- The datagram is a packet of block `b` of the history. -/
def OfBlock (cfg : Config) (sent : List Block) (b : Nat) (a : Bytes) : Prop :=
  ∃ blk ∈ sent[b]?, ∃ p ∈ blk.packets cfg b, marshal p = .ok a

instance (cfg : Config) (sent : List Block) (b : Nat) (a : Bytes) :
    Decidable (OfBlock cfg sent b a) :=
  inferInstanceAs (Decidable (∃ blk ∈ sent[b]?, ∃ p ∈ blk.packets cfg b, marshal p = .ok a))

/-- The datagram is read as a DATA packet. -/
def isData (a : Bytes) : Bool :=
  match readUDP a with
  | .ok p => decide (p.type = .data)
  | .error _ => false

/-- Every DATA packet that arrives belongs to a block of the peer whose number stands
in the relation `near` to the receiver. -/
def Arrivals (lc : LinkConfig) (near : Receiver → Nat → Prop) (s : Link) : LinkEvent → Prop
  | .deliver y i _ => ∀ a ∈ (s.net y)[i]?, isData a = true →
      ∃ b < (s.session y.other).tx.sent.length,
        OfBlock (lc.side y.other) (s.session y.other).tx.sent b a ∧ near (s.session y).rx b
  | _ => True

instance (lc : LinkConfig) (near : Receiver → Nat → Prop) [∀ r b, Decidable (near r b)] (s : Link)
    (e : LinkEvent) : Decidable (Arrivals lc near s e) :=
  match e with
  | .deliver y i _ => inferInstanceAs (Decidable (∀ a ∈ (s.net y)[i]?, isData a = true →
      ∃ b < (s.session y.other).tx.sent.length,
        OfBlock (lc.side y.other) (s.session y.other).tx.sent b a ∧ near (s.session y).rx b))
  | .act _ _ => .isTrue trivial
  | .drop _ _ => .isTrue trivial

/-- Within 32767 blocks of the number of blocks written. -/
def Near (r : Receiver) (b : Nat) : Prop := b ≤ r.written + 32767 ∧ r.written ≤ b + 32767

/-- Less than half a turn behind the writer and less than a turn ahead of it. -/
def InTurn (r : Receiver) (b : Nat) : Prop := r.written ≤ b + 32767 ∧ b < r.written + 65536

instance (r : Receiver) (b : Nat) : Decidable (Near r b) := inferInstanceAs (Decidable (_ ∧ _))

instance (r : Receiver) (b : Nat) : Decidable (InTurn r b) := inferInstanceAs (Decidable (_ ∧ _))

theorem Arrivals.mono {lc : LinkConfig} {near near' : Receiver → Nat → Prop}
    (h : ∀ r b, near r b → near' r b) {s : Link} {e : LinkEvent} (ha : Arrivals lc near s e) :
    Arrivals lc near' s e := by
  cases e with
  | act x e => trivial
  | drop y i => trivial
  | deliver y i again =>
    intro a hget hdata
    obtain ⟨b, hlt, hb, hnear⟩ := ha a hget hdata
    exact ⟨b, hlt, hb, h _ _ hnear⟩

/-! ## The receiving side of a session -/

namespace Side

@[simp] theorem other_other (x : Side) : x.other.other = x := by cases x <;> rfl

@[simp] theorem other_ne (x : Side) : x.other ≠ x := by cases x <;> decide

@[simp] theorem ne_other (x : Side) : x ≠ x.other := by cases x <;> decide

theorem eq_or_eq_other (x z : Side) : z = x ∨ z = x.other := by cases x <;> cases z <;> decide

end Side

section Session

variable {rs : ReedSolomon} {lc : LinkConfig} {n : Nat} {code : Code UInt8 lc.fecK n} {x y : Side}
  {sent : List Block} {s s' : Session} {e : SessionEvent} {out : List Bytes}

theorem Session.handle_rx_of_ne {cfg : Config} {p : Packet} (ht : p.type ≠ .data) :
    (s.handle rs cfg p).rx = s.rx := by
  unfold Session.handle
  split
  · rename_i h
    exact absurd h ht
  · split <;> rfl
  all_goals rfl

theorem Session.finishHandler_rx : s.finishHandler.rx = s.rx := by
  unfold Session.finishHandler
  split
  · rfl
  · rfl
  · simp only
    split <;> rfl

theorem Session.handle_launched (cfg : Config) (p : Packet) :
    (s.handle rs cfg p).launched = s.launched := by
  unfold Session.handle
  split
  · rfl
  · split <;> rfl
  all_goals rfl

theorem Session.finishHandler_launched : s.finishHandler.launched = s.launched := by
  unfold Session.finishHandler
  split
  · rfl
  · rfl
  · simp only
    split <;> rfl

theorem Session.handle_cancelled (cfg : Config) (p : Packet) (hc : s.cancelled = true) :
    (s.handle rs cfg p).cancelled = true := by
  unfold Session.handle
  split
  · exact hc
  · split <;> exact hc
  · exact hc
  · exact hc
  · rfl
  · exact hc

theorem Session.finishHandler_cancelled (hc : s.cancelled = true) :
    s.finishHandler.cancelled = true := by
  unfold Session.finishHandler
  split
  · exact hc
  · exact hc
  · simp only
    split
    · rfl
    · exact hc

/-- What a step of a session can do to its receiving half. -/
inductive Session.RxChange (rs : ReedSolomon) (cfg : Config) (s : Session) :
    SessionEvent → Receiver → Prop
  | same (e : SessionEvent) : RxChange rs cfg s e s.rx
  | launch (hl : s.launched = false) : RxChange rs cfg s .launch { s.rx with writer := .wait }
  | start (hl : s.launched = true) : RxChange rs cfg s .start (Receiver.startInit cfg s.rx)
  | step (ev : RxEvent) (eff : Effect Receiver)
      (h : s.rx.step cfg s.cancelled s.tx.closeRecv ev = some eff) :
        RxChange rs cfg s (.rx ev) eff.state
  | data (p : Packet) (ht : p.type = .data) :
      RxChange rs cfg s (.recv p) (s.rx.handleDataPacket rs cfg p)

theorem Session.step_rxChange {cfg : Config} (hs : s.step rs cfg e = some (s', out)) :
    RxChange rs cfg s e s'.rx ∧ (s'.launched = false → s.launched = false ∧ e ≠ .launch) ∧
      (s.cancelled = true → s'.cancelled = true) := by
  cases Session.stepped_of_step hs with
  | launch hl => exact ⟨.launch hl, by simp, id⟩
  | start hl hst => exact ⟨.start hl, by simp, id⟩
  | tx e eff hl hclose heff => exact ⟨.same _, by simp, id⟩
  | txClose e eff hl hclose heff =>
    exact ⟨.same _, by simp [Session.close], by simp [Session.close]⟩
  | rx e eff heff => exact ⟨.step e eff heff, by simp, id⟩
  | recv p hd =>
    rw [Session.handle_launched]
    refine ⟨?_, by simp, Session.handle_cancelled cfg p⟩
    by_cases ht : p.type = .data
    · have hrx : (s.handle rs cfg p).rx = s.rx.handleDataPacket rs cfg p := by
        simp [Session.handle, ht]
      rw [hrx]
      exact .data p ht
    · rw [Session.handle_rx_of_ne ht]
      exact .same _
  | finishHandler hd =>
    rw [Session.finishHandler_rx, Session.finishHandler_launched]
    exact ⟨.same _, by simp, Session.finishHandler_cancelled⟩
  | cancel => exact ⟨.same _, by simp [Session.close], by simp [Session.close]⟩

theorem Session.step_idle {cfg : Config} (hidle : s.launched = false → s.rx.writer = .idle)
    (hs : s.step rs cfg e = some (s', out)) : s'.launched = false → s'.rx.writer = .idle := by
  intro hl'
  obtain ⟨hchange, hlaunched, -⟩ := Session.step_rxChange hs
  obtain ⟨hl, hne⟩ := hlaunched hl'
  generalize s'.rx = r' at hchange ⊢
  cases hchange with
  | same => exact hidle hl
  | launch => exact absurd rfl hne
  | start hl₁ =>
    rw [hl] at hl₁
    cases hl₁
  | step ev eff heff => exact (Receiver.step_move heff).idle (hidle hl)
  | data p ht =>
    rw [(s.rx.handleDataPacket_intake rs cfg p).writer]
    exact hidle hl

theorem Session.step_rx (himpl : Implements rs code) (hv : ∀ x, (lc.side x).Valid n)
    (hblocks : ∀ blk ∈ sent, Flushed rs (lc.side x) blk)
    (hs : s.step rs (lc.side y) e = some (s', out)) (h : RxInv code sent s.rx)
    (hfresh : s.launched = false → s.rx.writer = .idle) (hdata : ∀ p, e = .recv p → p.type = .data →
      ∃ b, FromBlock (lc.side x) sent b p ∧ InTurn s.rx b) :
    RxInv code sent s'.rx ∧ (s'.launched = false → s'.rx.writer = .idle) := by
  have hwf : ∀ blk ∈ sent, blk.WF rs lc.fecK := fun blk hblk => (hblocks blk hblk).toWF
  refine ⟨?_, Session.step_idle hfresh hs⟩
  have hchange := (Session.step_rxChange hs).1
  generalize s'.rx = r' at hchange ⊢
  cases hchange with
  | same => exact h
  | launch hl =>
    have hp := h.progress
    simp only [Progress, hfresh hl] at hp
    exact ⟨h.next, h.le, h.entries, hp⟩
  | start => exact startInit_rxInv (hv y) h
  | step ev eff heff => exact (Receiver.step_move heff).rxInv (hv y).one_le hwf h
  | data p ht =>
    obtain ⟨b, hb, hlo, hhi⟩ := hdata p rfl ht
    exact handleDataPacket_rxInv himpl hv hblocks h hb hlo hhi

end Session

/-! ## The invariant of a link -/

/-- Only a CLOSE sets `closeRecv`. -/
theorem Session.step_closeRecv {rs : ReedSolomon} {cfg : Config} {n : Nat}
    {code : Code UInt8 cfg.fecK n} (himpl : Implements rs code) (hv : cfg.Valid n) {s s' : Session}
    {e : SessionEvent} {out : List Bytes} (hs : s.step rs cfg e = some (s', out))
    (h : s.TxInv rs cfg) (hc : s'.tx.closeRecv = true) :
    s.tx.closeRecv = true ∨ ∃ p, e = .recv p ∧ p.type = .close := by
  cases Session.stepped_of_step hs with
  | tx e eff hl hclose heff => exact Or.inl ((heff.sound himpl hv h.inv h.ends).closeRecv ▸ hc)
  | txClose e eff hl hclose heff => exact Or.inl ((heff.sound himpl hv h.inv h.ends).closeRecv ▸ hc)
  | recv p hd =>
    by_cases ht : p.type = .close
    · exact Or.inr ⟨p, rfl, ht⟩
    · left
      unfold Session.handle at hc
      split at hc
      · exact hc
      · split at hc <;> exact hc
      · obtain ⟨m, ok, blocks, size, interval, heq, -⟩ := Sender.handleLQR_eq cfg s.tx p
        rw [heq] at hc
        exact hc
      · rename_i h
        exact absurd h ht
      · exact hc
      · exact hc
  | finishHandler hd =>
    left
    unfold Session.finishHandler at hc
    split at hc
    · exact hc
    · exact hc
    · simp only at hc
      split at hc <;> exact hc
  | _ => exact Or.inl hc

/-- What a step of the link can be: a step of one session, a packet handed to one
session, or a change of the network alone. -/
theorem Link.step_cases {rs : ReedSolomon} {lc : LinkConfig} {s s' : Link} {e : LinkEvent}
    (hs : s.step rs lc e = some s') :
    (∃ x ev, e = .act x ev ∧ (∀ p, ev ≠ .recv p) ∧ s.feed rs lc x ev = some s') ∨
    (∃ (y : Side) (i : Nat) (again : Bool) (a : Bytes) (p : Packet) (s₀ : Link),
      e = .deliver y i again ∧ (s.net y)[i]? = some a ∧ readUDP a = .ok p ∧ s₀.session = s.session ∧
      (∀ z, ∀ a ∈ s₀.net z, a ∈ s.net z) ∧ s₀.feed rs lc y (.recv p) = some s') ∨
    (s'.session = s.session ∧ ∀ z, ∀ a ∈ s'.net z, a ∈ s.net z) := by
  have hremove : ∀ y i, (s.remove y i).session = s.session ∧
      ∀ z, ∀ a ∈ (s.remove y i).net z, a ∈ s.net z := by
    intro y i
    refine ⟨rfl, fun z a ha => ?_⟩
    by_cases hz : z = y
    · subst hz
      simp only [Link.remove, Function.update_self] at ha
      exact List.mem_of_mem_eraseIdx ha
    · simpa [Link.remove, hz] using ha
  cases e with
  | act x ev =>
    left
    cases ev with
    | recv p => cases hs
    | _ => exact ⟨x, _, rfl, by simp, hs⟩
  | deliver y i again =>
    simp only [Link.step] at hs
    split at hs
    · cases hs
    · rename_i a ha
      have hs₀ : ∀ s₀ : Link, s₀ = (if again then s else s.remove y i) →
          s₀.session = s.session ∧ ∀ z, ∀ a ∈ s₀.net z, a ∈ s.net z := by
        rintro s₀ rfl
        split
        · exact ⟨rfl, fun z a ha => ha⟩
        · exact hremove y i
      generalize hdef : (if again then s else s.remove y i) = s₀ at hs
      obtain ⟨hses, hnet⟩ := hs₀ s₀ hdef.symm
      split at hs
      · cases hs
        exact Or.inr (Or.inr ⟨hses, hnet⟩)
      · rename_i p hp
        split at hs
        · exact Or.inr (Or.inl ⟨y, i, again, a, p, s₀, rfl, ha, hp, hses, hnet, hs⟩)
        · cases hs
          exact Or.inr (Or.inr ⟨hses, hnet⟩)
  | drop y i =>
    simp only [Link.step, Option.ite_none_right_eq_some, Option.some.injEq] at hs
    obtain ⟨-, rfl⟩ := hs
    exact Or.inr (Or.inr (hremove y i))

section Invariant

variable {rs : ReedSolomon} {lc : LinkConfig} {n : Nat} {code : Code UInt8 lc.fecK n} {s s' : Link}

/-- For each direction: the sender's books, the datagrams on their way, the receiver
against the sender's history. -/
structure LinkInv (rs : ReedSolomon) (lc : LinkConfig) {n : Nat} (code : Code UInt8 lc.fecK n)
    (s : Link) : Prop where
  tx : ∀ x, (s.session x).TxInv rs (lc.side x)
  net : ∀ x, ∀ a ∈ s.net (Side.other x), Emitted (lc.side x) (s.session x).tx a
  rx : ∀ x, RxInv code (s.session x).tx.sent (s.session (Side.other x)).rx
  fresh : ∀ x, (s.session x).launched = false → (s.session x).rx.writer = .idle
  closeRecv : ∀ x, (s.session (Side.other x)).tx.closeRecv = true → (s.session x).tx.closer ≠ .idle

theorem linkInv_init (hv : ∀ x, (lc.side x).Valid n) : LinkInv rs lc code (link rs lc).init where
  tx x := Session.newSession_txInv rs (hv x)
  net x a ha := by cases ha
  rx x := by
    refine ⟨rfl, Nat.zero_le _, ?_, rfl⟩
    intro g b hb
    simp [link, newSession] at hb
  fresh _ _ := rfl
  closeRecv x h := by simp [link, newSession, newSender] at h

theorem LinkInv.of_net (h : LinkInv rs lc code s) (hses : s'.session = s.session)
    (hnet : ∀ x, ∀ a ∈ s'.net x, a ∈ s.net x) : LinkInv rs lc code s' := by
  refine ⟨?_, ?_, ?_, ?_, ?_⟩
  · rw [hses]; exact h.tx
  · rw [hses]; exact fun x a ha => h.net x a (hnet _ a ha)
  · rw [hses]; exact h.rx
  · rw [hses]; exact h.fresh
  · rw [hses]; exact h.closeRecv

theorem LinkInv.feed (himpl : Implements rs code) (hv : ∀ x, (lc.side x).Valid n)
    (h : LinkInv rs lc code s) {y : Side} {e : SessionEvent} (hs : s.feed rs lc y e = some s')
    (hrecv : ∀ p, e = .recv p → ∃ a, Emitted (lc.side y.other) (s.session y.other).tx a ∧
      readUDP a = .ok p)
    (hdata : ∀ p, e = .recv p → p.type = .data → ∃ b,
      FromBlock (lc.side y.other) (s.session y.other).tx.sent b p ∧ InTurn (s.session y).rx b) :
    LinkInv rs lc code s' := by
  simp only [Link.feed, Option.map_eq_some_iff, Prod.exists] at hs
  obtain ⟨sy, out, hstep, rfl⟩ := hs
  obtain ⟨htx, hext, hout⟩ := Session.step_tx himpl (hv y) hstep (h.tx y)
  have hrx' : RxInv code (s.session y.other).tx.sent (s.session y).rx := by
    have hrx := h.rx y.other
    rwa [Side.other_other] at hrx
  obtain ⟨hrx, hfresh⟩ :=
    Session.step_rx himpl hv (h.tx y.other).inv.1.blocks hstep hrx' (h.fresh y) hdata
  refine ⟨?_, ?_, ?_, ?_, ?_⟩
  · intro z
    rcases y.eq_or_eq_other z with rfl | rfl
    · simpa using htx
    · simpa using h.tx y.other
  · intro z a ha
    rcases y.eq_or_eq_other z with rfl | rfl
    · simp only [Function.update_self, List.mem_append] at ha ⊢
      rcases ha with ha | ha
      · exact (h.net z a ha).mono hext
      · exact hout a ha
    · simp only [Side.other_other, ne_eq, Side.ne_other, not_false_eq_true, Function.update_of_ne,
        Side.other_ne] at ha ⊢
      exact h.net y.other a (by rwa [Side.other_other])
  · intro z
    rcases y.eq_or_eq_other z with rfl | rfl
    · simpa using (h.rx z).extend hext.sent
    · simpa using hrx
  · intro z
    rcases y.eq_or_eq_other z with rfl | rfl
    · simpa using hfresh
    · simpa using h.fresh y.other
  · intro z hc
    rcases y.eq_or_eq_other z with rfl | rfl
    · simp only [ne_eq, Side.other_ne, not_false_eq_true, Function.update_of_ne,
        Function.update_self] at hc ⊢
      exact hext.closer (h.closeRecv z hc)
    · simp only [Side.other_other, Function.update_self, ne_eq, Side.other_ne, not_false_eq_true,
        Function.update_of_ne] at hc ⊢
      rcases Session.step_closeRecv himpl (hv y) hstep (h.tx y) hc with hc | ⟨p, rfl, ht⟩
      · exact h.closeRecv y.other (by rwa [Side.other_other])
      · -- a CLOSE on the wire means that its sender's CLOSE goroutine has run
        obtain ⟨a, hem, hread⟩ := hrecv p rfl
        obtain ⟨p', hp', -, hkind⟩ := hem.read himpl (hv y.other) (h.tx y.other).inv
        obtain rfl : p' = p := Except.ok.inj (hp'.symm.trans hread)
        rcases hkind with ⟨b, hb⟩ | ⟨-, hc⟩ | ⟨ht', -⟩ | ht' | ht'
        · rw [hb.type] at ht
          cases ht
        · exact hc
        all_goals
          rw [ht] at ht'
          cases ht'

/-- The block of an arriving DATA packet, as the receiver reads it. -/
theorem Arrivals.fromBlock (himpl : Implements rs code) (hv : ∀ x, (lc.side x).Valid n)
    (h : LinkInv rs lc code s) {near : Receiver → Nat → Prop} {y : Side} {i : Nat} {again : Bool}
    (harr : Arrivals lc near s (.deliver y i again)) {a : Bytes} {p : Packet}
    (hget : (s.net y)[i]? = some a) (hread : readUDP a = .ok p) (ht : p.type = .data) :
    ∃ b, FromBlock (lc.side y.other) (s.session y.other).tx.sent b p ∧ near (s.session y).rx b := by
  obtain ⟨b, -, ⟨blk, hblk, q, hq, hm⟩, hnear⟩ := harr a hget (by simp [isData, hread, ht])
  have hfrom : FromBlock (lc.side y.other) (s.session y.other).tx.sent b q := ⟨blk, hblk, hq⟩
  have hread' := readUDP_block himpl (hv y.other) (h.tx y.other).inv.1.blocks hfrom hm
  obtain rfl : q = p := Except.ok.inj (hread'.symm.trans hread)
  exact ⟨b, hfrom, hnear⟩

/-- Every step of an end and of the network keeps both directions. -/
theorem LinkInv.step (himpl : Implements rs code) (hv : ∀ x, (lc.side x).Valid n) {e : LinkEvent}
    (h : LinkInv rs lc code s) (harr : Arrivals lc InTurn s e) (hs : s.step rs lc e = some s') :
    LinkInv rs lc code s' := by
  rcases Link.step_cases hs with ⟨x, ev, rfl, hne, hfeed⟩ |
    ⟨y, i, again, a, p, s₀, rfl, hget, hread, hses, hnet, hfeed⟩ | ⟨hses, hnet⟩
  · exact h.feed himpl hv hfeed (fun p hp => absurd hp (hne p)) (fun p hp => absurd hp (hne p))
  · have h₀ := h.of_net hses hnet
    refine h₀.feed himpl hv hfeed ?_ ?_
    · rintro q hq
      cases hq
      rw [hses]
      refine ⟨a, ?_, hread⟩
      have hmem : a ∈ s.net y.other.other := by
        rw [Side.other_other]
        exact List.mem_of_getElem? hget
      exact h.net y.other a hmem
    · rintro q hq ht
      cases hq
      rw [hses]
      exact harr.fromBlock himpl hv h hget hread ht
  · exact h.of_net hses hnet

theorem linkInv_of_reach (himpl : Implements rs code) (hv : ∀ x, (lc.side x).Valid n)
    {ok : Link → LinkEvent → Prop} (hok : ∀ s e, ok s e → Arrivals lc InTurn s e)
    (hr : Reach (link rs lc) ok s) : LinkInv rs lc code s :=
  hr.invariant (linkInv_init hv) fun _ _ _ h ho hs => h.step himpl hv (hok _ _ ho) hs

end Invariant

/-! ## Rules for further invariants -/

/-- Each session sees a step of the link as one of its own steps, or not at all. -/
theorem Link.step_session {rs : ReedSolomon} {lc : LinkConfig} {s s' : Link} {e : LinkEvent}
    (hs : s.step rs lc e = some s') (z : Side) :
    s'.session z = s.session z ∨
      ∃ ev out, (s.session z).step rs (lc.side z) ev = some (s'.session z, out) := by
  have hfeed : ∀ (s₀ : Link) (x : Side) (ev : SessionEvent), s₀.session = s.session →
      s₀.feed rs lc x ev = some s' → s'.session z = s.session z ∨
        ∃ ev out, (s.session z).step rs (lc.side z) ev = some (s'.session z, out) := by
    intro s₀ x ev hses hf
    simp only [Link.feed, Option.map_eq_some_iff, Prod.exists] at hf
    obtain ⟨sx, out, hstep, rfl⟩ := hf
    by_cases hz : z = x
    · subst hz
      rw [hses] at hstep
      exact Or.inr ⟨ev, out, by simpa using hstep⟩
    · left
      simp [hz, hses]
  rcases Link.step_cases hs with ⟨x, ev, -, -, hf⟩ | ⟨y, i, again, a, p, s₀, -, -, -, hses, -, hf⟩ |
    ⟨hses, -⟩
  · exact hfeed s x ev rfl hf
  · exact hfeed s₀ y _ hses hf
  · exact Or.inl (congrFun hses z)

/-- **Rule for one session.** What every step of a session keeps holds of both sessions. -/
theorem session_invariant {rs : ReedSolomon} {lc : LinkConfig} {ok : Link → LinkEvent → Prop}
    (z : Side) {I : Session → Prop} (hinit : I (newSession (lc.side z)))
    (hstep : ∀ s ev s' out, I s → s.step rs (lc.side z) ev = some (s', out) → I s')
    {s : Link} (hr : Reach (link rs lc) ok s) : I (s.session z) := by
  refine hr.invariant (I := fun s => I (s.session z)) hinit fun s e s' hi _ hs => ?_
  rcases Link.step_session hs z with heq | ⟨ev, out, hev⟩
  · rw [heq]
    exact hi
  · exact hstep _ _ _ _ hi hev

theorem txInv_of_reach {rs : ReedSolomon} {lc : LinkConfig} {n : Nat} {code : Code UInt8 lc.fecK n}
    (himpl : Implements rs code) (hv : ∀ x, (lc.side x).Valid n) {ok : Link → LinkEvent → Prop}
    {s : Link} (hr : Reach (link rs lc) ok s) (x : Side) : (s.session x).TxInv rs (lc.side x) :=
  session_invariant x (Session.newSession_txInv rs (hv x))
    (fun _ _ _ _ h hs => (Session.step_tx himpl (hv x) hs h).1) hr

/-- A property of a receiving half against the history of its peer that every step
keeps, when DATA packets arrive from blocks `near` the receiver. -/
structure RxStable (rs : ReedSolomon) (lc : LinkConfig) {n : Nat} (code : Code UInt8 lc.fecK n)
    (near : Receiver → Nat → Prop) (J : List Block → Receiver → Prop) : Prop where
  init : J [] {}
  history : ∀ {sent sent' r}, sent <+: sent' → J sent r → J sent' r
  launch : ∀ {sent r}, J sent r → J sent { r with writer := .wait }
  start : ∀ {sent r} (y : Side), J sent r → J sent (Receiver.startInit (lc.side y) r)
  move : ∀ {sent r r' done closeRecv}, RxInv code sent r → J sent r →
    Receiver.Move done closeRecv r r' → J sent r'
  recv : ∀ {sent r b p} (x : Side), RxInv code sent r → J sent r → FromBlock (lc.side x) sent b p →
    near r b → J sent (r.handleDataPacket rs (lc.side x.other) p)

section Rule

variable {rs : ReedSolomon} {lc : LinkConfig} {n : Nat} {code : Code UInt8 lc.fecK n}
  {near : Receiver → Nat → Prop} {J : List Block → Receiver → Prop}

theorem RxStable.step (hj : RxStable rs lc code near J) {sent : List Block} {s s' : Session}
    {y : Side} {e : SessionEvent} {out : List Bytes} (hs : s.step rs (lc.side y) e = some (s', out))
    (hrx : RxInv code sent s.rx) (h : J sent s.rx)
    (hdata : ∀ p, e = .recv p → p.type = .data → ∃ b, FromBlock (lc.side y.other) sent b p ∧
      near s.rx b) :
    J sent s'.rx := by
  obtain ⟨hchange, -⟩ := Session.step_rxChange hs
  generalize s'.rx = r' at hchange ⊢
  cases hchange with
  | same => exact h
  | launch => exact hj.launch h
  | start => exact hj.start y h
  | step ev eff heff => exact hj.move hrx h (Receiver.step_move heff)
  | data p ht =>
    obtain ⟨b, hb, hnear⟩ := hdata p rfl ht
    have hnext := hj.recv y.other hrx h hb hnear
    rwa [Side.other_other] at hnext

/-- What the packets of one direction and its receiver keep holds in every state of the link. -/
theorem RxStable.of_reach (hj : RxStable rs lc code near J) (himpl : Implements rs code)
    (hv : ∀ x, (lc.side x).Valid n) (hnear : ∀ r b, near r b → InTurn r b)
    {ok : Link → LinkEvent → Prop} (hok : ∀ s e, ok s e → Arrivals lc near s e) {s : Link}
    (hr : Reach (link rs lc) ok s) (x : Side) : J (s.session x).tx.sent (s.session x.other).rx := by
  have hfeed : ∀ (s s' : Link) (y : Side) (ev : SessionEvent), LinkInv rs lc code s →
      (∀ x, J (s.session x).tx.sent (s.session x.other).rx) → s.feed rs lc y ev = some s' →
      (∀ p, ev = .recv p → p.type = .data → ∃ b,
        FromBlock (lc.side y.other) (s.session y.other).tx.sent b p ∧ near (s.session y).rx b) →
      ∀ x, J (s'.session x).tx.sent (s'.session x.other).rx := by
    intro s s' y ev hinv h hf hdata z
    simp only [Link.feed, Option.map_eq_some_iff, Prod.exists] at hf
    obtain ⟨sy, out, hstep, rfl⟩ := hf
    rcases y.eq_or_eq_other z with rfl | rfl
    · have hext := (Session.step_tx himpl (hv z) hstep (hinv.tx z)).2.1
      simpa using hj.history hext.sent (h z)
    · have hrx := hinv.rx y.other
      have hcur := h y.other
      rw [Side.other_other] at hrx hcur
      simpa using hj.step hstep hrx hcur hdata
  have hboth : LinkInv rs lc code s ∧ ∀ x, J (s.session x).tx.sent (s.session x.other).rx := by
    refine hr.invariant (I := fun s => LinkInv rs lc code s ∧
      ∀ x, J (s.session x).tx.sent (s.session x.other).rx) ⟨linkInv_init hv, fun _ => hj.init⟩ ?_
    rintro s e s' ⟨hinv, h⟩ ho hs
    have harr := hok s e ho
    refine ⟨hinv.step himpl hv (harr.mono hnear) hs, ?_⟩
    rcases Link.step_cases hs with ⟨x, ev, rfl, hne, hf⟩ |
      ⟨y, i, again, a, p, s₀, rfl, hget, hread, hses, hnet, hf⟩ | ⟨hses, -⟩
    · exact hfeed s s' x ev hinv h hf fun p hp => absurd hp (hne p)
    · refine hfeed s₀ s' y _ (hinv.of_net hses hnet) (by rw [hses]; exact h) hf ?_
      rintro q hq ht
      cases hq
      rw [hses]
      exact harr.fromBlock himpl hv hinv hget hread ht
    · rw [hses]
      exact h
  exact hboth.2 x

end Rule

/-! ## Stream safety -/

/-- The documented ranges of the parameters. -/
structure LinkConfig.Documented (lc : LinkConfig) : Prop where
  fecK : 2 ≤ lc.fecK ∧ lc.fecK ≤ 20
  fecM : 1 ≤ lc.fecM ∧ lc.fecM ≤ 10
  linkMTU : ∀ x, 100 ≤ lc.linkMTU x ∧ lc.linkMTU x ≤ 1500

theorem LinkConfig.Documented.valid {lc : LinkConfig} (h : lc.Documented) {n : Nat}
    (hn : lc.fecK + lc.fecM ≤ n) (x : Side) : (lc.side x).Valid n := by
  have hk := h.fecK
  have hm := h.fecM
  have hmtu := h.linkMTU x
  refine ⟨?_, hn, ?_, ?_⟩
  · show 1 ≤ lc.fecK
    omega
  · show lc.fecK + lc.fecM ≤ 32
    omega
  · show (if lc.linkMTU x ≤ 36 then 512 else lc.linkMTU x - 36) + 8 ≤ 2048
    split <;> omega

/-- **Stream safety.** However the network drops, duplicates, delays and reorders, as
long as every DATA packet arrives within 32767 blocks of the writer, the bytes
written at one end are a prefix of the bytes read at the other. -/
theorem stream_safety {rs : ReedSolomon} {lc : LinkConfig} {n : Nat} {code : Code UInt8 lc.fecK n}
    (himpl : Implements rs code) (hn : lc.fecK + lc.fecM ≤ n) (hlc : lc.Documented) {s : Link}
    (hr : Reach (link rs lc) (Arrivals lc Near) s) (x : Side) :
    (s.session x.other).rx.tcpOut <+: (s.session x).tx.tcpIn := by
  have hv := hlc.valid hn
  have hinv : LinkInv rs lc code s := by
    refine linkInv_of_reach himpl hv (fun s e ha => ha.mono ?_) hr
    rintro r b ⟨hhi, hlo⟩
    exact ⟨hlo, by omega⟩
  obtain ⟨reads, -, -, -, htcp⟩ := (hinv.tx x).inv.1.reads
  rw [htcp]
  exact (hinv.rx x).tcpOut_isPrefix.trans (List.prefix_append _ _)

/-- Two data shards and one parity shard on both ends. -/
def smallLink : LinkConfig :=
  { streamID := 1, fecK := 2, fecM := 1, linkMTU := fun _ => 100, bandwidth := fun _ => 0 }

theorem smallLink_documented : smallLink.Documented :=
  ⟨by decide, by decide, fun x => by cases x <;> decide⟩

/-- Both ends launch and finish `Start`. -/
def bothStart : List LinkEvent :=
  [.act .left .launch, .act .left .start, .act .right .launch, .act .right .start]

/-- The left end reads `data`, and its block timer flushes the block. -/
def readAndFlush (data : Bytes) : List LinkEvent :=
  [.act .left (.tx .check), .act .left (.tx (.read data)), .act .left (.tx .timerFire),
    .act .left (.tx .timerRun)]

/-- The left shaper sends the three packets of a block. -/
def sendBlock : List LinkEvent :=
  [.act .left (.tx (.shaper .poll)), .act .left (.tx (.shaper .take)),
    .act .left (.tx (.shaper .send)), .act .left (.tx (.shaper .send)),
    .act .left (.tx (.shaper .send)), .act .left (.tx (.shaper .send))]

/-- The right writer writes a block of two slots, whose LQR is still to be sent. -/
def writeBlock : List LinkEvent :=
  [.act .right (.rx .wait), .act .right (.rx .slot), .act .right (.rx .slot),
    .act .right (.rx .slot), .act .right (.rx .cleanup), .act .right (.rx .report),
    .act .right (.rx .finish)]

/-- The parity packet arrives, then the padding, then the parity packet again; the
data packet is lost. -/
def smallRun : List LinkEvent :=
  bothStart ++ readAndFlush [7, 9] ++ sendBlock ++
    [.deliver .right 2 true, .deliver .right 1 false, .deliver .right 1 false,
      .drop .right 0] ++ writeBlock

theorem stream_safety_small :
    ∃ s, Reach (link reedSolomonTwoOne smallLink) (Arrivals smallLink Near) s ∧
      (s.session .right).rx.tcpOut = [7, 9] ∧
      (s.session .right).rx.tcpOut <+: (s.session .left).tx.tcpIn := by
  obtain ⟨s, hs, hout⟩ : ∃ s, Reach (link reedSolomonTwoOne smallLink) (Arrivals smallLink Near) s ∧
      (s.session .right).rx.tcpOut = [7, 9] := Reach.exists_of_runOk _ smallRun (by decide +kernel)
  exact ⟨s, hs, hout, @stream_safety reedSolomonTwoOne smallLink 3 twoOne implements_twoOne (by
    decide)
    smallLink_documented s hs .left⟩

end TcpPep
