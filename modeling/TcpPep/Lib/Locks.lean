import Mathlib.Tactic.ByContra
import TcpPep.Lib.Progress

/-!
Threads that take locks in order.

A thread is a list of lock operations still to be done and the stack of the locks it holds. A lock
may be taken for itself or shared with other readers; who wants it for itself keeps new readers
away, as in Go's `RWMutex`.

* `Ordered`: each lock is taken above all that are held, the last one taken is the first given back,
  and none is kept;
* `Balanced`: a piece of a program that leaves the held locks as they were, with its rules of
  composition;
* `Thread.InOrder`, `Pool.InOrder`: kept by every step;
* `Pool.InOrder.not_stuck`: some thread of an ordered pool can always go on;
* `pool_finishes`: all of them can be brought to their end.
-/

namespace Locks

open Events

/-- An operation on a lock. `unlock` gives back a lock that was taken either way. -/
inductive Op (ℓ : Type) where
  | lock (l : ℓ)
  | rlock (l : ℓ)
  | unlock (l : ℓ)
  deriving DecidableEq

/-- The locks held, the last one taken first, and whether each was taken for itself. -/
abbrev Held (ℓ : Type) := List (ℓ × Bool)

structure Thread (ℓ : Type) where
  held : Held ℓ := []
  todo : List (Op ℓ)

variable {ℓ : Type}

/-! ## Programs in order -/

section Ordered

variable (rank : ℓ → Nat)

/-- Every lock held is below `l`. -/
def Below (held : Held ℓ) (l : ℓ) : Prop := ∀ h ∈ held, rank h.1 < rank l

def Ordered : Held ℓ → List (Op ℓ) → Prop
  | held, [] => held = []
  | held, .lock l :: ops => Below rank held l ∧ Ordered ((l, true) :: held) ops
  | held, .rlock l :: ops => Below rank held l ∧ Ordered ((l, false) :: held) ops
  | [], .unlock _ :: _ => False
  | h :: held, .unlock l :: ops => h.1 = l ∧ Ordered held ops

/-- A piece of a program that runs with `held` and leaves it as it was. -/
def Balanced (held : Held ℓ) (ops : List (Op ℓ)) : Prop :=
  ∀ rest, Ordered rank held rest → Ordered rank held (ops ++ rest)

variable {rank} {held : Held ℓ} {l : ℓ} {ops ops' : List (Op ℓ)}

theorem Balanced.nil : Balanced rank held [] := fun _ h => h

theorem Balanced.append (h : Balanced rank held ops) (h' : Balanced rank held ops') :
    Balanced rank held (ops ++ ops') := by
  intro rest hrest
  rw [List.append_assoc]
  exact h _ (h' _ hrest)

theorem Balanced.flatMap {α : Type} {f : α → List (Op ℓ)} (h : ∀ a, Balanced rank held (f a))
    (as : List α) :
    Balanced rank held (as.flatMap f) := by
  induction as with
  | nil => exact .nil
  | cons a as ih =>
    rw [List.flatMap_cons]
    exact (h a).append ih

theorem Balanced.ite {c : Prop} [Decidable c] (h : Balanced rank held ops)
    (h' : Balanced rank held ops') :
    Balanced rank held (if c then ops else ops') := by
  split
  · exact h
  · exact h'

/-- A section under a lock. -/
def within (l : ℓ) (ops : List (Op ℓ)) : List (Op ℓ) := .lock l :: (ops ++ [.unlock l])

/-- A section under a lock shared with other readers. -/
def sharing (l : ℓ) (ops : List (Op ℓ)) : List (Op ℓ) := .rlock l :: (ops ++ [.unlock l])

/-- A part of a section with its lock given back meanwhile. -/
def without (l : ℓ) (ops : List (Op ℓ)) : List (Op ℓ) := .unlock l :: (ops ++ [.lock l])

theorem Balanced.within (hl : Below rank held l) (h : Balanced rank ((l, true) :: held) ops) :
    Balanced rank held (Locks.within l ops) := by
  intro rest hrest
  refine ⟨hl, ?_⟩
  rw [List.append_eq, List.append_assoc]
  exact h _ ⟨rfl, hrest⟩

theorem Balanced.sharing (hl : Below rank held l) (h : Balanced rank ((l, false) :: held) ops) :
    Balanced rank held (Locks.sharing l ops) := by
  intro rest hrest
  refine ⟨hl, ?_⟩
  rw [List.append_eq, List.append_assoc]
  exact h _ ⟨rfl, hrest⟩

theorem Balanced.without (hl : Below rank held l) (h : Balanced rank held ops) :
    Balanced rank ((l, true) :: held) (Locks.without l ops) := by
  intro rest hrest
  refine ⟨rfl, ?_⟩
  rw [List.append_eq, List.append_assoc]
  exact h _ ⟨hl, hrest⟩

theorem Balanced.ordered (h : Balanced rank [] ops) : Ordered rank [] ops := by
  have hops := h [] rfl
  rwa [List.append_nil] at hops

/-- A thread that holds a lock is not at its end. -/
theorem Ordered.busy (h : Ordered rank held ops) (hne : held ≠ []) : ops ≠ [] := by
  rintro rfl
  exact hne h

end Ordered

/-! ## Pools of threads -/

namespace Thread

/-- Each lock held is above those taken before it, and the rest of the program goes on in order. -/
structure InOrder (rank : ℓ → Nat) (t : Thread ℓ) : Prop where
  todo : Ordered rank t.held t.todo
  held : t.held.Pairwise fun h h' => rank h'.1 < rank h.1

/-- The height of the last lock taken. -/
def level (rank : ℓ → Nat) (t : Thread ℓ) : Nat :=
  match t.held with
  | [] => 0
  | h :: _ => rank h.1 + 1

variable {rank : ℓ → Nat} {t t' : Thread ℓ}

theorem level_le (hl : Below rank t.held l) : t.level rank ≤ rank l := by
  unfold level
  split
  · exact Nat.zero_le _
  · rename_i h held heq
    exact hl h (by simp [heq])

theorem InOrder.lt_level (ht : t.InOrder rank) {h : ℓ × Bool} (hh : h ∈ t.held) :
    rank h.1 < t.level rank := by
  have hsort := ht.held
  unfold level
  split
  · rename_i hnil
    simp [hnil] at hh
  · rename_i h' held heq
    rw [heq] at hh hsort
    rcases List.mem_cons.mp hh with rfl | hh
    · exact Nat.lt_succ_self _
    · exact Nat.lt_succ_of_lt ((List.pairwise_cons.mp hsort).1 h hh)

variable [DecidableEq ℓ]

/-- The next operation is done. -/
def perform (t : Thread ℓ) : Option (Thread ℓ) :=
  match t.todo, t.held with
  | .lock l :: todo, held => some { held := (l, true) :: held, todo }
  | .rlock l :: todo, held => some { held := (l, false) :: held, todo }
  | .unlock l :: todo, h :: held => if h.1 = l then some { held, todo } else none
  | _, _ => none

def holds (t : Thread ℓ) (l : ℓ) : Bool := t.held.any fun h => decide (h.1 = l)

def owns (t : Thread ℓ) (l : ℓ) : Bool := t.held.any fun h => decide (h.1 = l) && h.2

/-- The thread is about to take the lock for itself. -/
def wants (t : Thread ℓ) (l : ℓ) : Bool := decide (t.todo.head? = some (.lock l))

/-- A thread in order can do its next operation, stays in order and has one less to do. -/
theorem InOrder.perform (ht : t.InOrder rank) (hne : t.todo ≠ []) :
    ∃ t', t.perform = some t' ∧ t'.InOrder rank ∧ t'.todo.length + 1 = t.todo.length := by
  obtain ⟨held, todo⟩ := t
  obtain ⟨htodo, hheld⟩ := ht
  cases todo with
  | nil => exact absurd rfl hne
  | cons op todo =>
    cases op with
    | lock l =>
      obtain ⟨hl, hrest⟩ := htodo
      exact ⟨{ held := (l, true) :: held, todo }, rfl, ⟨hrest, List.pairwise_cons.mpr ⟨hl, hheld⟩⟩,
        rfl⟩
    | rlock l =>
      obtain ⟨hl, hrest⟩ := htodo
      exact ⟨{ held := (l, false) :: held, todo }, rfl, ⟨hrest, List.pairwise_cons.mpr ⟨hl, hheld⟩⟩,
        rfl⟩
    | unlock l =>
      cases held with
      | nil => cases htodo
      | cons h held =>
        obtain ⟨heq, hrest⟩ := htodo
        exact ⟨{ held, todo }, by simp [Thread.perform, heq],
          ⟨hrest, (List.pairwise_cons.mp hheld).2⟩, rfl⟩

end Thread

abbrev Pool (ℓ : Type) := List (Thread ℓ)

namespace Pool

theorem exists_bound (rank : ℓ → Nat) (pool : Pool ℓ) : ∃ n, ∀ t ∈ pool, t.level rank ≤ n := by
  induction pool with
  | nil => exact ⟨0, by simp⟩
  | cons t pool ih =>
    obtain ⟨n, hn⟩ := ih
    refine ⟨max (t.level rank) n, ?_⟩
    intro u hu
    rcases List.mem_cons.mp hu with rfl | hu
    · exact Nat.le_max_left ..
    · exact Nat.le_trans (hn u hu) (Nat.le_max_right ..)

/-- The operations still to be done. -/
def work : Pool ℓ → Nat
  | [] => 0
  | t :: pool => t.todo.length + work pool

theorem work_set {pool : Pool ℓ} {i : Nat} {t t' : Thread ℓ} (ht : pool[i]? = some t)
    (hlen : t'.todo.length + 1 = t.todo.length) :
    work (pool.set i t') + 1 = work pool := by
  induction pool generalizing i with
  | nil => simp at ht
  | cons u pool ih =>
    cases i with
    | zero =>
      simp only [List.getElem?_cons_zero, Option.some.injEq] at ht
      subst ht
      simp only [List.set_cons_zero, work]
      omega
    | succ i =>
      simp only [List.getElem?_cons_succ] at ht
      have := ih ht
      simp only [List.set_cons_succ, work]
      omega

variable [DecidableEq ℓ]

/-- Whether the next operation of a thread does not have to wait. -/
def free (pool : Pool ℓ) (t : Thread ℓ) : Bool :=
  match t.todo with
  | .lock l :: _ => pool.all fun u => !u.holds l
  | .rlock l :: _ => pool.all fun u => !u.owns l && !u.wants l
  | _ => true

/-- One operation of thread `i`. -/
def run (pool : Pool ℓ) (i : Nat) : Option (Pool ℓ) :=
  match pool[i]? with
  | some t => if pool.free t then t.perform.map fun t' => pool.set i t' else none
  | none => none

def InOrder (rank : ℓ → Nat) (pool : Pool ℓ) : Prop := ∀ t ∈ pool, t.InOrder rank

variable {rank : ℓ → Nat} {pool pool' : Pool ℓ}

/-- Somebody holds the lock that a thread waits for, and stands higher. -/
theorem InOrder.higher (h : pool.InOrder rank)
    (hstuck : ∀ t ∈ pool, t.todo ≠ [] → pool.free t = false) {t : Thread ℓ}
    (ht : t ∈ pool) (hne : t.todo ≠ []) :
    ∃ u ∈ pool, u.todo ≠ [] ∧ t.level rank < u.level rank := by
  -- a thread that holds `l` stands above everyone who may take it
  have habove : ∀ l, Below rank t.held l → ∀ u ∈ pool, u.holds l = true → u.todo ≠ [] ∧
      t.level rank < u.level rank := by
    intro l hl u hu hholds
    obtain ⟨e, he, hel⟩ := List.any_eq_true.mp hholds
    have hel : e.1 = l := by simpa using hel
    refine ⟨(h u hu).todo.busy (List.ne_nil_of_mem he), ?_⟩
    have hlow := Thread.level_le hl
    have hhigh := (h u hu).lt_level he
    rw [hel] at hhigh
    omega
  have hwait := hstuck t ht hne
  have horder := (h t ht).todo
  cases htodo : t.todo with
  | nil => exact absurd htodo hne
  | cons op todo =>
    rw [htodo] at horder
    cases op with
    | lock l =>
      simp only [free, htodo, List.all_eq_false, Bool.not_eq_true', Bool.not_eq_false] at hwait
      obtain ⟨u, hu, hholds⟩ := hwait
      exact ⟨u, hu, habove l horder.1 u hu hholds⟩
    | rlock l =>
      simp only [free, htodo, List.all_eq_false, Bool.not_eq_true] at hwait
      obtain ⟨u, hu, hbusy⟩ := hwait
      rw [Bool.and_eq_false_iff, Bool.not_eq_false', Bool.not_eq_false'] at hbusy
      rcases hbusy with howns | hwants
      · refine ⟨u, hu, habove l horder.1 u hu ?_⟩
        obtain ⟨e, he, hel⟩ := List.any_eq_true.mp howns
        exact List.any_eq_true.mpr ⟨e, he, (Bool.and_eq_true_iff.mp hel).1⟩
      · -- a writer is next, and waits itself
        have hhead : u.todo.head? = some (.lock l) := by simpa [Thread.wants] using hwants
        obtain ⟨rest, hrest⟩ : ∃ rest, u.todo = .lock l :: rest := by
          cases hu' : u.todo with
          | nil => simp [hu'] at hhead
          | cons op rest =>
            simp only [hu', List.head?_cons, Option.some.injEq] at hhead
            exact ⟨rest, by rw [hhead]⟩
        have hwait' := hstuck u hu (by simp [hrest])
        simp only [free, hrest, List.all_eq_false, Bool.not_eq_true', Bool.not_eq_false] at hwait'
        obtain ⟨v, hv, hholds⟩ := hwait'
        exact ⟨v, hv, habove l horder.1 v hv hholds⟩
    | unlock l => simp [free, htodo] at hwait

/-- **No deadlock.** A pool in order that is not at its end has a thread that can go on. -/
theorem InOrder.not_stuck (h : pool.InOrder rank) (hbusy : ∃ t ∈ pool, t.todo ≠ []) :
    ∃ t ∈ pool, t.todo ≠ [] ∧ pool.free t = true := by
  by_contra hnone
  have hstuck : ∀ t ∈ pool, t.todo ≠ [] → pool.free t = false := by
    intro t ht hne
    by_contra hfree
    exact hnone ⟨t, ht, hne, by simpa using hfree⟩
  -- from each thread that waits there is one higher up, without end
  have hclimb : ∀ n, ∃ t ∈ pool, t.todo ≠ [] ∧ n ≤ t.level rank := by
    intro n
    induction n with
    | zero =>
      obtain ⟨t, ht, hne⟩ := hbusy
      exact ⟨t, ht, hne, Nat.zero_le _⟩
    | succ n ih =>
      obtain ⟨t, ht, hne, hn⟩ := ih
      obtain ⟨u, hu, hne', hlt⟩ := h.higher hstuck ht hne
      exact ⟨u, hu, hne', by omega⟩
  obtain ⟨n, hn⟩ := exists_bound rank pool
  obtain ⟨t, ht, -, hle⟩ := hclimb (n + 1)
  have := hn t ht
  omega

/-- **Step lemma.** An operation keeps the order and is work done. -/
theorem InOrder.run (h : pool.InOrder rank) {i : Nat} (hs : pool.run i = some pool') :
    pool'.InOrder rank ∧ work pool' + 1 = work pool := by
  unfold Pool.run at hs
  split at hs
  · rename_i t ht
    simp only [Option.ite_none_right_eq_some, Option.map_eq_some_iff] at hs
    obtain ⟨-, t', hperform, rfl⟩ := hs
    have hmem := List.mem_of_getElem? ht
    have hne : t.todo ≠ [] := by
      intro hnil
      simp [Thread.perform, hnil] at hperform
    obtain ⟨t₁, hperform₁, ht₁, hlen⟩ := (h t hmem).perform hne
    obtain rfl := Option.some.inj (hperform.symm.trans hperform₁)
    refine ⟨?_, work_set ht hlen⟩
    intro u hu
    rcases List.mem_or_eq_of_mem_set hu with hu | rfl
    · exact h u hu
    · exact ht₁
  · cases hs

end Pool

/-! ## As a machine -/

section Machine

variable [DecidableEq ℓ]

inductive PoolEvent (ℓ : Type) where
  /-- a thread enters a program -/
  | enter (ops : List (Op ℓ))
  | run (i : Nat)

def pool (ℓ : Type) [DecidableEq ℓ] : Machine (Pool ℓ) (PoolEvent ℓ) where
  init := []
  step pool
    | .enter ops => some (pool ++ [{ todo := ops }])
    | .run i => Pool.run pool i

/-- The programs that threads enter are in order. -/
def EntersInOrder (rank : ℓ → Nat) (_ : Pool ℓ) : PoolEvent ℓ → Prop
  | .enter ops => Ordered rank [] ops
  | .run _ => True

/-- Nobody enters. -/
def OnlyRuns (_ : Pool ℓ) : PoolEvent ℓ → Prop
  | .enter _ => False
  | .run _ => True

instance (s : Pool ℓ) : (e : PoolEvent ℓ) → Decidable (OnlyRuns s e)
  | .enter _ => .isFalse id
  | .run _ => .isTrue trivial

variable {rank : ℓ → Nat} {s s' : Pool ℓ}

theorem Pool.InOrder.step (h : s.InOrder rank) {e : PoolEvent ℓ} (hok : EntersInOrder rank s e)
    (hs : (pool ℓ).step s e = some s') : s'.InOrder rank := by
  cases e with
  | enter ops =>
    cases hs
    intro t ht
    rcases List.mem_append.mp ht with ht | ht
    · exact h t ht
    · rw [List.mem_singleton.mp ht]
      exact ⟨hok, List.Pairwise.nil⟩
  | run i => exact (h.run hs).1

theorem inOrder_of_reach (hr : Reach (pool ℓ) (EntersInOrder rank) s) : s.InOrder rank :=
  hr.invariant (I := fun s => s.InOrder rank) (by simp [pool, Pool.InOrder]) fun _ _ _ h hok hs =>
    h.step hok hs

/-- All threads of a pool in order can be brought to their end. -/
theorem pool_finishes :
    Attains (pool ℓ) OnlyRuns (fun s => s.InOrder rank) (fun s => ∃ t ∈ s, t.todo ≠ [])
    (fun s => ∀ t ∈ s, t.todo = []) := by
  refine .of_rank_step ?_ Pool.work ?_
  · intro s e s' h hok hs
    cases e with
    | enter ops => cases hok
    | run i => exact (h.run hs).1
  · intro s h hbusy
    obtain ⟨t, ht, hne, hfree⟩ := h.not_stuck hbusy
    obtain ⟨i, hi⟩ := List.getElem?_of_mem ht
    obtain ⟨t', hperform, -, -⟩ := (h t ht).perform hne
    have hs : s.run i = some (s.set i t') := by simp [Pool.run, hi, hfree, hperform]
    refine ⟨.run i, s.set i t', trivial, hs, ?_⟩
    by_cases hdone : ∀ u ∈ s.set i t', u.todo = []
    · exact Or.inl hdone
    · refine Or.inr ⟨by simpa using hdone, ?_⟩
      have := (h.run hs).2
      omega

end Machine

end Locks
