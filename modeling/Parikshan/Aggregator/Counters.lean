import Parikshan.Posix.Semaphore
import Mathlib.Logic.Function.Basic
import Mathlib.Tactic.Common

/-!
# The shared counters of the aggregator

`shm_incr.c` keeps two counters in a shared memory segment and increments them under one
semaphore, statement by statement: `p(mutex)`, the load into `val`, the store of `++val`,
`v(mutex)`. Reading a counter takes no lock.

## Main definitions

* `Shm`, `Shm.getShmCounter`, `Shm.getShmCounter2`.
* `Shm.increment`: one statement of `increment_shm_counter` or `increment_shm_counter2`.
* `Coherent`: the invariant of the segment and of all increments in progress.

## Main results

* `Coherent.increment`: a statement of an increment keeps the invariant.
* `Coherent.increment_get`: a store adds one to its counter and nothing else changes a counter.
-/

namespace Parikshan.Aggregator

open Posix

/-- The two integers of the segment. -/
inductive Counter
  | first
  | second
  deriving DecidableEq, Repr

/-- The shared memory segment and the semaphore. The counters do not overflow here; in the source
each is a C `int`. -/
structure Shm where
  shm : ℕ
  shm2 : ℕ
  mutex : ℕ
  deriving DecidableEq, Repr

/-- What is left of an increment; `val` is the local variable. -/
inductive Inc
  | p
  | load
  | store (val : ℕ)
  | v
  deriving DecidableEq, Repr

/-- The process is between `p(mutex)` and `v(mutex)`. -/
def Inc.Inside : Inc → Prop
  | .p => False
  | .load => True
  | .store _ => True
  | .v => True

namespace Shm

/-- `create_shm_seg`, lines 37–54: the segment is zero and the semaphore is created with `1`. -/
def createShmSeg : Shm := { shm := 0, shm2 := 0, mutex := 1 }

def get (m : Shm) : Counter → ℕ
  | .first => m.shm
  | .second => m.shm2

def set (m : Shm) : Counter → ℕ → Shm
  | .first, val => { m with shm := val }
  | .second, val => { m with shm2 := val }

/-- `get_shm_counter`, lines 120–123. -/
def getShmCounter (m : Shm) : ℕ := m.get .first

/-- `get_shm_counter2`, lines 125–128. -/
def getShmCounter2 (m : Shm) : ℕ := m.get .second

/-- One statement of an increment, and what is left of it. -/
def increment (m : Shm) (x : Counter) : Inc → Option (Shm × Option Inc)
  | .p => (Semaphore.wait m.mutex).map fun n => ({ m with mutex := n }, some .load)
  | .load => some (m, some (.store (m.get x)))
  | .store val => some (m.set x (val + 1), some .v)
  | .v => some ({ m with mutex := Semaphore.signal m.mutex }, none)

/-- `increment_shm_counter`, lines 103–110. -/
def incrementShmCounter (m : Shm) : Inc → Option (Shm × Option Inc) := m.increment .first

/-- `increment_shm_counter2`, lines 112–117. -/
def incrementShmCounter2 (m : Shm) : Inc → Option (Shm × Option Inc) := m.increment .second

@[simp] theorem get_set_self (m : Shm) (x : Counter) (val : ℕ) : (m.set x val).get x = val := by
  cases x <;> rfl

theorem get_set_of_ne (m : Shm) {x y : Counter} (h : y ≠ x) (val : ℕ) :
    (m.set x val).get y = m.get y := by
  cases x <;> cases y <;> first | rfl | exact absurd rfl h

@[simp] theorem set_mutex (m : Shm) (x : Counter) (val : ℕ) : (m.set x val).mutex = m.mutex := by
  cases x <;> rfl

theorem get_with_mutex (m : Shm) (n : ℕ) (x : Counter) : get { m with mutex := n } x = m.get x := by
  cases x <;> rfl

/-- What a statement of an increment does. -/
theorem increment_cases {m m' : Shm} {x : Counter} {i : Inc} {r : Option Inc}
    (h : m.increment x i = some (m', r)) :
    (∃ n, i = .p ∧ Semaphore.wait m.mutex = some n ∧ m' = { m with mutex := n } ∧ r = some .load) ∨
      (i = .load ∧ m' = m ∧ r = some (.store (m.get x))) ∨
      (∃ val, i = .store val ∧ m' = m.set x (val + 1) ∧ r = some .v) ∨
      (i = .v ∧ m' = { m with mutex := Semaphore.signal m.mutex } ∧ r = none) := by
  cases i with
  | p =>
    obtain ⟨n, hn, heq⟩ := Option.map_eq_some_iff.mp h
    obtain ⟨rfl, rfl⟩ := Prod.mk.inj heq
    exact Or.inl ⟨n, rfl, hn, rfl, rfl⟩
  | load =>
    obtain ⟨rfl, rfl⟩ := Prod.mk.inj (Option.some.inj h)
    exact Or.inr (Or.inl ⟨rfl, rfl, rfl⟩)
  | store val =>
    obtain ⟨rfl, rfl⟩ := Prod.mk.inj (Option.some.inj h)
    exact Or.inr (Or.inr (Or.inl ⟨val, rfl, rfl, rfl⟩))
  | v =>
    obtain ⟨rfl, rfl⟩ := Prod.mk.inj (Option.some.inj h)
    exact Or.inr (Or.inr (Or.inr ⟨rfl, rfl, rfl⟩))

end Shm

/-! ### Increments in progress -/

section Coherent

variable {κ : Type*} [DecidableEq κ] {m m' : Shm} {f : κ → Option (Counter × Inc)} {k : κ}
  {x : Counter} {i : Inc} {r : Option Inc}

/-- The position of a process is inside an increment. -/
def Within (o : Option (Counter × Inc)) : Prop := ∃ x i, o = some (x, i) ∧ i.Inside

/-- The processes inside an increment. -/
def inside (f : κ → Option (Counter × Inc)) : Set κ := {k | ∃ x i, f k = some (x, i) ∧ i.Inside}

/-- The semaphore guards the increments, and what a process inside has loaded is still there. -/
structure Coherent (m : Shm) (f : κ → Option (Counter × Inc)) : Prop where
  guards : Semaphore.Guards m.mutex (inside f)
  loaded : ∀ k x val, f k = some (x, .store val) → val = m.get x

omit [DecidableEq κ] in
theorem mem_inside (hk : f k = some (x, i)) : k ∈ inside f ↔ i.Inside := by
  refine ⟨?_, fun hi => ⟨x, i, hk, hi⟩⟩
  rintro ⟨y, j, hj, hin⟩
  obtain ⟨rfl, rfl⟩ := Prod.mk.inj (Option.some.inj (hk.symm.trans hj))
  exact hin

/-- A process that is not inside an increment goes on outside of one. -/
theorem inside_update_of_notMem (hk : k ∉ inside f) {r : Option (Counter × Inc)}
    (hr : ∀ x i, r = some (x, i) → ¬ i.Inside) : inside (Function.update f k r) = inside f := by
  have hout : ¬ Within r := fun ⟨x, i, h, hin⟩ => hr x i h hin
  calc inside (Function.update f k r) = inside f \ {k} := setOf_update_of_neg (P := Within) hout
    _ = inside f := Set.sdiff_singleton_eq_self hk

theorem inside_update_of_inside {j : Inc} (hj : j.Inside) :
    inside (Function.update f k (some (x, j))) = insert k (inside f) :=
  setOf_update_of_pos (P := Within) ⟨x, j, rfl, hj⟩

theorem inside_update_none : inside (Function.update f k none) = inside f \ {k} :=
  setOf_update_of_neg (P := Within) (by simp [Within])

namespace Coherent

/-- A process moves on: what it has loaded, and what the others have, is still there. -/
theorem loaded_update {r : Option (Counter × Inc)}
    (hr : ∀ x val, r = some (x, .store val) → val = m.get x)
    (hothers : ∀ k' ≠ k, ∀ x val, f k' = some (x, .store val) → val = m.get x) (k' : κ)
    (x : Counter) (val : ℕ) (hk' : Function.update f k r k' = some (x, .store val)) :
    val = m.get x := by
  by_cases hkk : k' = k
  · subst hkk
    rw [Function.update_self] at hk'
    exact hr x val hk'
  · rw [Function.update_of_ne hkk] at hk'
    exact hothers k' hkk x val hk'

/-- Outside of the increments a process may do what it likes. -/
theorem update (h : Coherent m f) (hk : k ∉ inside f) {r : Option (Counter × Inc)}
    (hr : ∀ x i, r = some (x, i) → ¬ i.Inside) : Coherent m (Function.update f k r) := by
  refine ⟨(inside_update_of_notMem hk hr).symm ▸ h.guards, loaded_update ?_ fun k' _ => h.loaded k'⟩
  exact fun x val hx => absurd trivial (hr _ _ hx)

omit [DecidableEq κ] in
/-- No process but `k` has loaded a counter while `k` is inside. -/
theorem eq_of_store (h : Coherent m f) (hk : k ∈ inside f) {k' : κ} {y : Counter} {val : ℕ}
    (hk' : f k' = some (y, .store val)) : k' = k :=
  h.guards.eq_of_mem ((mem_inside hk').mpr trivial) hk

/-- **Increments.** One statement of an increment keeps the invariant. -/
theorem increment (h : Coherent m f) (hk : f k = some (x, i))
    (hstep : m.increment x i = some (m', r)) :
    Coherent m' (Function.update f k (r.map (x, ·))) := by
  have hothers (n : ℕ) (k' : κ) (y : Counter) (val : ℕ) (hy : f k' = some (y, .store val)) :
      val = Shm.get { m with mutex := n } y := by
    rw [Shm.get_with_mutex]
    exact h.loaded k' y val hy
  rcases Shm.increment_cases hstep with ⟨n, rfl, hn, rfl, rfl⟩ | ⟨rfl, rfl, rfl⟩ |
    ⟨val, rfl, rfl, rfl⟩ | ⟨rfl, rfl, rfl⟩
  · refine ⟨?_, loaded_update (by simp) fun k' _ => hothers n k'⟩
    rw [Option.map_some, inside_update_of_inside (j := .load) trivial]
    exact h.guards.enter hn
  · refine ⟨?_, loaded_update ?_ fun k' _ => h.loaded k'⟩
    · rw [Option.map_some, inside_update_of_inside (j := .store _) trivial,
        Set.insert_eq_of_mem ((mem_inside hk).mpr trivial)]
      exact h.guards
    · rintro y val hy
      obtain ⟨rfl, rfl⟩ := by simpa using hy
      rfl
  · have hin := (mem_inside hk).mpr trivial
    refine ⟨?_, loaded_update (by simp) fun k' hne y val' hy => ?_⟩
    · rw [Option.map_some, inside_update_of_inside (j := .v) trivial, Set.insert_eq_of_mem hin,
        Shm.set_mutex]
      exact h.guards
    · exact absurd (h.eq_of_store hin hy) hne
  · refine ⟨?_, loaded_update (by simp) fun k' _ => hothers _ k'⟩
    rw [Option.map_none, inside_update_none]
    exact h.guards.leave ((mem_inside hk).mpr trivial)

omit [DecidableEq κ] in
/-- A store adds one to its counter; no other statement changes a counter. -/
theorem increment_get (h : Coherent m f) (hk : f k = some (x, i))
    (hstep : m.increment x i = some (m', r)) (y : Counter) :
    m'.get y = if r = some .v ∧ y = x then m.get y + 1 else m.get y := by
  rcases Shm.increment_cases hstep with ⟨n, rfl, hn, rfl, rfl⟩ | ⟨rfl, rfl, rfl⟩ |
    ⟨val, rfl, rfl, rfl⟩ | ⟨rfl, rfl, rfl⟩
  · simp [Shm.get_with_mutex]
  · simp
  · by_cases hyx : y = x
    · subst hyx
      simp [h.loaded k y val hk]
    · simp [hyx, Shm.get_set_of_ne _ hyx]
  · simp [Shm.get_with_mutex]

end Coherent

end Coherent

end Parikshan.Aggregator
