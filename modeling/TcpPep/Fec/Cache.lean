import TcpPep.Fec.Fec
import TcpPep.Fec.TwoOne
import TcpPep.Lib.Decimal
import TcpPep.Lib.Machine
import TcpPep.Lib.Table

/-!
The encoders that a session keeps: `getEncoder` of `fec/fec.go`.

`Encode` and `Reconstruct` ask for an encoder with every block, with the `m` of that block and, on
the receiving side, with the `K` of its packets. Encoders are kept in a map under the text `"k,m"`.
The sending and the receiving half of a session share the map; `f.mu` makes each request one step.

* `FEC`, `FEC.getEncoder`: the map;
* `FEC.Genuine`: it holds what `New` returned, each under its own text;
* `FecUse`, `fecUse`: a run of requests of the two halves;
* `fec_cache_transparent`: in every run the results are those of `encode` and `reconstruct`, which
  have no map, and no encoder is made twice.
-/

namespace TcpPep.Fec

open Protocol Events FiniteMap Decimal

/-- `fmt.Sprintf("%d,%d", k, m)`. -/
def cacheKey (k m : Nat) : List Char := decimal k ++ ',' :: decimal m

theorem cacheKey_injective {k m k' m' : Nat} (h : cacheKey k m = cacheKey k' m') :
    k = k' ∧ m = m' :=
  decimal_separated (by decide) h

structure FEC where
  encoders : Table (List Char) Encoder := ∅

namespace FEC

def getEncoder (rs : ReedSolomon) (f : FEC) (k m : Nat) : FEC × Option Encoder :=
  match f.encoders.lookup (cacheKey k m) with
  | some enc => (f, some enc)
  | none =>
    match rs.new k m with
    | none => (f, none)
    | some enc => ({ f with encoders := f.encoders.insert (cacheKey k m) enc }, some enc)

def encode (rs : ReedSolomon) (f : FEC) (k m : Nat) (data : List Bytes) :
    FEC × Option (List Bytes) :=
  if m = 0 then (f, some [])
  else
    let r := f.getEncoder rs k m
    match r.2 with
    | none => (r.1, none)
    | some enc =>
      let len := if maxLen data = 0 then 1 else maxLen data
      let shards := (List.range k).map (fun i => padded len (data.getD i [])) ++
        List.replicate m (List.replicate len 0)
      match enc.encode shards with
      | none => (r.1, none)
      | some out => (r.1, some ((out.drop k).take m))

def reconstruct (rs : ReedSolomon) (f : FEC) (k m : Nat) (shards : List (Option Bytes)) :
    FEC × Option (List (Option Bytes)) :=
  if m = 0 then (f, none)
  else
    let r := f.getEncoder rs k m
    match r.2 with
    | none => (r.1, none)
    | some enc => (r.1, enc.reconstruct shards)

/-- The entry for the numbers `(k, m)`. -/
def entry (f : FEC) (p : Nat × Nat) : Option Encoder := f.encoders.lookup (cacheKey p.1 p.2)

/-- An entry is the encoder that `New` returns for the numbers in its key. -/
def Genuine (rs : ReedSolomon) (f : FEC) : Prop := ∀ p enc, f.entry p = some enc →
    rs.new p.1 p.2 = some enc

variable {rs : ReedSolomon} {f : FEC} {k m : Nat}

theorem entry_insert (f : FEC) (k m : Nat) (enc : Encoder) (p : Nat × Nat) :
    FEC.entry { f with encoders := f.encoders.insert (cacheKey k m) enc } p =
      if p = (k, m) then some enc else f.entry p := by
  unfold FEC.entry
  rw [lookup_insert_eq]
  by_cases hsame : p = (k, m)
  · rw [hsame]
    simp
  · rw [if_neg hsame, if_neg]
    intro hkey
    obtain ⟨hk, hm⟩ := cacheKey_injective hkey
    exact hsame (Prod.ext hk hm)

/-- **What a request gives and leaves**: the encoder of `New`, and an entry for it unless `New`
fails. -/
theorem Genuine.getEncoder (h : f.Genuine rs) (k m : Nat) :
    (f.getEncoder rs k m).2 = rs.new k m ∧
      ∀ p, (f.getEncoder rs k m).1.entry p = if p = (k, m) then rs.new k m else f.entry p := by
  unfold FEC.getEncoder
  cases hentry : f.encoders.lookup (cacheKey k m) with
  | some enc =>
    have hnew := h (k, m) enc hentry
    refine ⟨hnew.symm, ?_⟩
    intro p
    by_cases hsame : p = (k, m)
    · rw [if_pos hsame, hsame]
      exact hentry.trans hnew.symm
    · rw [if_neg hsame]
  | none =>
    cases hnew : rs.new k m with
    | none =>
      refine ⟨rfl, ?_⟩
      intro p
      by_cases hsame : p = (k, m)
      · rw [if_pos hsame, hsame]
        exact hentry
      · rw [if_neg hsame]
    | some enc => exact ⟨rfl, entry_insert f k m enc⟩

theorem Genuine.encode (h : f.Genuine rs) (data : List Bytes) :
    (f.encode rs k m data).2 = Fec.encode rs k m data := by
  unfold FEC.encode Fec.encode Fec.getEncoder
  split
  · rfl
  · rw [← (h.getEncoder k m).1]
    cases henc : (f.getEncoder rs k m).2 with
    | none => simp only [henc]
    | some enc =>
      simp only [henc]
      generalize enc.encode _ = out
      cases out with
      | none => rfl
      | some out => rfl

theorem Genuine.reconstruct (h : f.Genuine rs) (shards : List (Option Bytes)) :
    (f.reconstruct rs k m shards).2 = Fec.reconstruct rs k m shards := by
  unfold FEC.reconstruct Fec.reconstruct Fec.getEncoder
  split
  · rfl
  · rw [← (h.getEncoder k m).1]
    cases henc : (f.getEncoder rs k m).2 with
    | none => simp only [henc]
    | some enc => simp only [henc]

end FEC

/-! ## A run of requests -/

inductive FecCall where
  | encode (k m : Nat) (data : List Bytes)
  | reconstruct (k m : Nat) (shards : List (Option Bytes))

inductive FecResult where
  | parity (r : Option (List Bytes))
  | shards (r : Option (List (Option Bytes)))

def FecCall.pair : FecCall → Nat × Nat
  | .encode k m _ => (k, m)
  | .reconstruct k m _ => (k, m)

/-- The result without the map. -/
def FecCall.direct (rs : ReedSolomon) : FecCall → FecResult
  | .encode k m data => .parity (Fec.encode rs k m data)
  | .reconstruct k m shards => .shards (Fec.reconstruct rs k m shards)

def FEC.call (rs : ReedSolomon) (f : FEC) : FecCall → FEC × FecResult
  | .encode k m data => ((f.encode rs k m data).1, .parity (f.encode rs k m data).2)
  | .reconstruct k m shards =>
    ((f.reconstruct rs k m shards).1, .shards (f.reconstruct rs k m shards).2)

/-- The encoders that a call makes. -/
def FEC.makes (rs : ReedSolomon) (f : FEC) (c : FecCall) : List (Nat × Nat) :=
  if c.pair.2 ≠ 0 ∧ f.entry c.pair = none ∧ rs.new c.pair.1 c.pair.2 ≠ none then [c.pair] else []

/-- The map of a session, with what was made for it and the calls so far; no step reads these. -/
structure FecUse where
  fec : FEC := {}
  made : List (Nat × Nat) := []
  log : List (FecCall × FecResult) := []

def FecUse.step (rs : ReedSolomon) (s : FecUse) (c : FecCall) : FecUse where
  fec := (s.fec.call rs c).1
  made := s.made ++ s.fec.makes rs c
  log := s.log ++ [(c, (s.fec.call rs c).2)]

/-- The machine of one `FEC`, called by both halves of its session. -/
def fecUse (rs : ReedSolomon) : Machine FecUse FecCall where
  init := {}
  step s c := some (s.step rs c)

/-- The numbers have been asked for. -/
def FecUse.Requested (s : FecUse) (p : Nat × Nat) : Prop := p.2 ≠ 0 ∧ ∃ x ∈ s.log, x.1.pair = p

structure FecUse.Sound (rs : ReedSolomon) (s : FecUse) : Prop where
  results : ∀ x ∈ s.log, x.2 = x.1.direct rs
  genuine : s.fec.Genuine rs
  requested : ∀ p, s.Requested p → s.fec.entry p = rs.new p.1 p.2
  made : ∀ p, p ∈ s.made ↔ s.fec.entry p ≠ none
  made_requested : ∀ p ∈ s.made, s.Requested p
  nodup : s.made.Nodup

section Step

variable {rs : ReedSolomon} {f : FEC} {s : FecUse}

theorem FEC.Genuine.call (h : f.Genuine rs) (c : FecCall) :
    (f.call rs c).2 = c.direct rs ∧
      ∀ p, (f.call rs c).1.entry p = if p = c.pair ∧
      p.2 ≠ 0 then rs.new p.1 p.2 else f.entry p := by
  have hfst (k m : Nat) (g : FEC) (hg : g = if m = 0 then f else (f.getEncoder rs k m).1)
      (p : Nat × Nat) :
      g.entry p = if p = (k, m) ∧ p.2 ≠ 0 then rs.new p.1 p.2 else f.entry p := by
    subst hg
    by_cases hm : m = 0
    · rw [if_pos hm, if_neg]
      rintro ⟨rfl, hne⟩
      exact hne hm
    · rw [if_neg hm, (h.getEncoder k m).2]
      by_cases hsame : p = (k, m)
      · subst hsame
        simp [hm]
      · simp [hsame]
  cases c with
  | encode k m data =>
    refine ⟨congrArg FecResult.parity (h.encode data), hfst k m _ ?_⟩
    simp only [FEC.call, FEC.encode]
    split
    · rfl
    · split
      · rfl
      · split
        · rfl
        · rfl
  | reconstruct k m shards =>
    refine ⟨congrArg FecResult.shards (h.reconstruct shards), hfst k m _ ?_⟩
    simp only [FEC.call, FEC.reconstruct]
    split
    · rfl
    · split
      · rfl
      · rfl

theorem FecUse.requested_step (c : FecCall) (p : Nat × Nat) :
    (s.step rs c).Requested p ↔ s.Requested p ∨ (p = c.pair ∧ p.2 ≠ 0) := by
  simp only [FecUse.Requested, FecUse.step, List.mem_append, List.mem_singleton]
  constructor
  · rintro ⟨hne, x, hx | rfl, rfl⟩
    · exact Or.inl ⟨hne, x, hx, rfl⟩
    · exact Or.inr ⟨rfl, hne⟩
  · rintro (⟨hne, x, hx, rfl⟩ | ⟨rfl, hne⟩)
    · exact ⟨hne, x, Or.inl hx, rfl⟩
    · exact ⟨hne, _, Or.inr rfl, rfl⟩

theorem FEC.mem_makes (c : FecCall) (p : Nat × Nat) :
    p ∈ f.makes rs c ↔ (p = c.pair ∧ p.2 ≠ 0) ∧ f.entry p = none ∧ rs.new p.1 p.2 ≠ none := by
  unfold FEC.makes
  split
  · rename_i hcond
    rw [List.mem_singleton]
    constructor
    · rintro rfl
      exact ⟨⟨rfl, hcond.1⟩, hcond.2⟩
    · intro h
      exact h.1.1
  · rename_i hcond
    constructor
    · intro h
      cases h
    · rintro ⟨⟨rfl, hne⟩, hrest⟩
      exact absurd ⟨hne, hrest⟩ hcond

theorem FecUse.Sound.step (h : s.Sound rs) (c : FecCall) : (s.step rs c).Sound rs := by
  obtain ⟨hresult, hentry⟩ := h.genuine.call c
  constructor
  · intro x hx
    rcases List.mem_append.mp hx with hx | hx
    · exact h.results x hx
    · obtain rfl := List.mem_singleton.mp hx
      exact hresult
  · intro p enc henc
    change (s.fec.call rs c).1.entry p = some enc at henc
    rw [hentry] at henc
    split at henc
    · exact henc
    · exact h.genuine p enc henc
  · intro p hp
    change (s.fec.call rs c).1.entry p = _
    rw [hentry]
    split
    · rfl
    · rename_i hother
      rcases (FecUse.requested_step c p).mp hp with hp | hp
      · exact h.requested p hp
      · exact absurd hp hother
  · intro p
    change p ∈ s.made ++ s.fec.makes rs c ↔ (s.fec.call rs c).1.entry p ≠ none
    rw [List.mem_append, FEC.mem_makes, h.made, hentry]
    by_cases hpair : p = c.pair ∧ p.2 ≠ 0
    · rw [if_pos hpair]
      constructor
      · rintro (hold | hnew)
        · obtain ⟨enc, henc⟩ := Option.ne_none_iff_exists'.mp hold
          rw [h.genuine p enc henc]
          exact Option.some_ne_none enc
        · exact hnew.2.2
      · intro hnew
        by_cases hold : s.fec.entry p = none
        · exact Or.inr ⟨hpair, hold, hnew⟩
        · exact Or.inl hold
    · rw [if_neg hpair]
      constructor
      · rintro (hold | hnew)
        · exact hold
        · exact absurd hnew.1 hpair
      · exact Or.inl
  · intro p hp
    rw [FecUse.requested_step]
    rcases List.mem_append.mp hp with hp | hp
    · exact Or.inl (h.made_requested p hp)
    · exact Or.inr ((FEC.mem_makes c p).mp hp).1
  · -- what is made has no entry yet, so it was not made before
    refine List.nodup_append.mpr ⟨h.nodup, ?_, ?_⟩
    · unfold FEC.makes
      split
      · exact List.nodup_singleton _
      · exact List.nodup_nil
    · intro p hp q hq heq
      subst heq
      exact (h.made p).mp hp ((FEC.mem_makes c p).mp hq).2.1

theorem fecUse_sound {ok : FecUse → FecCall → Prop} (hr : Reach (fecUse rs) ok s) : s.Sound rs := by
  induction hr with
  | init =>
    constructor
    · intro x hx
      cases hx
    · intro p enc henc
      cases henc
    · rintro p ⟨-, x, hx, -⟩
      cases hx
    · intro p
      constructor
      · intro hp
        cases hp
      · intro hentry
        exact absurd rfl hentry
    · intro p hp
      cases hp
    · exact List.nodup_nil
  | step _ _ hs ih =>
    obtain rfl := Option.some.inj hs
    exact ih.step _

end Step

/-- **The map of encoders does not show.** In every run of `Encode` and `Reconstruct` calls of the
two halves of a session, in any order and with any `k` and `m`, each call has the result it would
have with a new encoder. An encoder is made once for each pair `(k, m)` that was asked for with `m >
0` and that `New` accepts, and for no other: a failure of `New` is not kept. -/
theorem fec_cache_transparent (rs : ReedSolomon) {ok : FecUse → FecCall → Prop} {s : FecUse}
    (hr : Reach (fecUse rs) ok s) :
    (∀ x ∈ s.log, x.2 = x.1.direct rs) ∧ s.made.Nodup ∧
      ∀ p, p ∈ s.made ↔ (p.2 ≠ 0 ∧ ∃ x ∈ s.log, x.1.pair = p) ∧ rs.new p.1 p.2 ≠ none := by
  have hsound := fecUse_sound hr
  refine ⟨hsound.results, hsound.nodup, ?_⟩
  intro p
  constructor
  · intro hp
    have hasked := hsound.made_requested p hp
    refine ⟨hasked, ?_⟩
    rw [← hsound.requested p hasked]
    exact (hsound.made p).mp hp
  · rintro ⟨hasked, hnew⟩
    rw [hsound.made, hsound.requested p hasked]
    exact hnew

/-- Two calls with one encoder, and one that `New` refuses. -/
theorem fec_cache_transparent_small :
    ∃ s, Reach (fecUse reedSolomonTwoOne) (fun _ _ => True) s ∧ s.made = [(2, 1)] ∧
      s.log.length = 3 ∧ ∀ x ∈ s.log, x.2 = x.1.direct reedSolomonTwoOne := by
  obtain ⟨s, hr, hmade, hlen⟩ : ∃ s, Reach (fecUse reedSolomonTwoOne) (fun _ _ => True) s ∧
      s.made = [(2, 1)] ∧ s.log.length = 3 :=
    Reach.exists_of_runOk _
      [.encode 2 1 [[1], [2]], .encode 3 1 [[1], [2], [3]],
        .reconstruct 2 1 [some [1], none, some [3]]]
      (by decide +kernel)
  exact ⟨s, hr, hmade, hlen, (fec_cache_transparent _ hr).1⟩

end TcpPep.Fec
