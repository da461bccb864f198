import Parikshan.Aggregator.Counters
import Parikshan.Machine.Basic

/-!
# Increments are not lost

Any number of processes call `increment_shm_counter` and `increment_shm_counter2`, as often as they
like and in any order. A step of the machine is one statement of one process, so that the load and
the store of an increment are separate steps, and statements of other processes come between them.

`++val` is undefined if `val` is the largest `int`. The semaphore operations have the flag
`SEM_UNDO`, which matters for a process that exits between `p` and `v`; none does.

## Main definitions

* `Sharing`: the segment and the increments that the processes are in.
* `sharing`: the machine.
* `stores`, `completed`: what has been done to a counter.
* `Counting`: the invariant.

## Main results

* `Counting.step`: every statement keeps the invariant.
* `no_lost_update`: the semaphore is exact, and so are the counters.
-/

namespace Parikshan.Aggregator

open Posix

/-! ### The machine -/

/-- The shared memory segment, and for each process the increment that it is in. -/
structure Sharing (κ : Type*) where
  shm : Shm
  inc : κ → Option (Counter × Inc)

/-- A process calls one of the two functions, or executes the next statement of its call. -/
inductive Event (κ : Type*)
  | call (k : κ) (x : Counter)
  | exec (k : κ) (x : Counter) (i : Inc)
  deriving DecidableEq, Repr

/-- No process has called a function after `create_shm_seg`. -/
def Sharing.start (κ : Type*) : Sharing κ := { shm := Shm.createShmSeg, inc := fun _ => none }

/-- The statement is defined: `++val` does not overflow. -/
def Inc.Defined (intMax : ℕ) : Inc → Prop
  | .store val => val < intMax
  | _ => True

instance (intMax : ℕ) : (i : Inc) → Decidable (i.Defined intMax)
  | .p => .isTrue trivial
  | .load => .isTrue trivial
  | .store val => inferInstanceAs (Decidable (val < intMax))
  | .v => .isTrue trivial

section Machine

variable {κ : Type*} [DecidableEq κ]

/-- Processes that share the counters; `intMax` is `INT_MAX`. -/
def sharing (κ : Type*) [DecidableEq κ] (intMax : ℕ) : Machine (Sharing κ) (Event κ) where
  step s
    | .call k x =>
      if s.inc k = none then some { s with inc := Function.update s.inc k (some (x, .p)) } else none
    | .exec k x i =>
      if s.inc k = some (x, i) ∧ i.Defined intMax then
        (s.shm.increment x i).map fun r =>
          { shm := r.1, inc := Function.update s.inc k (r.2.map (x, ·)) }
      else none

/-- What a step does. -/
theorem sharing_cases {intMax : ℕ} {s t : Sharing κ} {a : Event κ}
    (h : (sharing κ intMax).step s a = some t) :
    (∃ k x, a = .call k x ∧ s.inc k = none ∧
        t = { s with inc := Function.update s.inc k (some (x, .p)) }) ∨
      ∃ k x i m r, a = .exec k x i ∧ s.inc k = some (x, i) ∧ s.shm.increment x i = some (m, r) ∧
        t = { shm := m, inc := Function.update s.inc k (r.map (x, ·)) } := by
  cases a with
  | call k x =>
    simp only [sharing] at h
    split_ifs at h with hk
    exact Or.inl ⟨k, x, rfl, hk, (Option.some.inj h).symm⟩
  | exec k x i =>
    simp only [sharing] at h
    split_ifs at h with hk
    obtain ⟨⟨m, r⟩, hr, rfl⟩ := Option.map_eq_some_iff.mp h
    exact Or.inr ⟨k, x, i, m, r, rfl, hk.1, hr, rfl⟩

end Machine

/-! ### What has been done to a counter -/

section History

variable {κ : Type*}

/-- The event is a store to the counter. -/
def Event.isStore (x : Counter) : Event κ → Bool
  | .exec _ y (.store _) => y = x
  | _ => false

/-- The event is the last statement of an increment of the counter. -/
def Event.isEnd (x : Counter) : Event κ → Bool
  | .exec _ y .v => y = x
  | _ => false

/-- The number of stores to a counter. -/
def stores (x : Counter) (as : List (Event κ)) : ℕ := as.countP (Event.isStore x)

/-- The number of completed increments of a counter. -/
def completed (x : Counter) (as : List (Event κ)) : ℕ := as.countP (Event.isEnd x)

theorem stores_concat (x : Counter) (as : List (Event κ)) (a : Event κ) :
    stores x (as ++ [a]) = stores x as + if a.isStore x then 1 else 0 := by
  rw [stores, List.countP_append, List.countP_singleton, stores]

theorem completed_concat (x : Counter) (as : List (Event κ)) (a : Event κ) :
    completed x (as ++ [a]) = completed x as + if a.isEnd x then 1 else 0 := by
  rw [completed, List.countP_append, List.countP_singleton, completed]

end History

/-! ### The invariant -/

section Counting

variable {κ : Type*} [DecidableEq κ] {intMax : ℕ} {s t : Sharing κ} {a : Event κ}
  {as : List (Event κ)}

/-- The semaphore guards the increments, and each counter is the number of its stores. An increment
that has stored and is not completed is at its `v`. -/
structure Counting (as : List (Event κ)) (s : Sharing κ) : Prop where
  coherent : Coherent s.shm s.inc
  stored : ∀ x, s.shm.get x = stores x as
  ended : ∀ x, (stores x as : ℕ∞) = completed x as + {k | s.inc k = some (x, .v)}.encard

omit [DecidableEq κ] in
theorem Counting.start : Counting [] (Sharing.start κ) where
  coherent := by
    have hempty : inside (Sharing.start κ).inc = ∅ := by
      ext k
      simp [inside, Sharing.start]
    exact ⟨hempty ▸ .empty, fun k x val h => by cases h⟩
  stored x := by cases x <;> rfl
  ended x := by simp [stores, completed, Sharing.start]

omit [DecidableEq κ] in
/-- What is left of an increment begins with `v` if its statement has been the store. -/
theorem increment_next {m m' : Shm} {x : Counter} {i : Inc} {r : Option Inc}
    (h : m.increment x i = some (m', r)) (k : κ) (y : Counter) :
    r = some .v ∧ y = x ↔ (Event.exec k x i).isStore y := by
  rcases Shm.increment_cases h with ⟨n, rfl, -, -, rfl⟩ | ⟨rfl, -, rfl⟩ | ⟨val, rfl, -, rfl⟩ |
    ⟨rfl, -, rfl⟩
  · simp [Event.isStore]
  · simp [Event.isStore]
  · simp [Event.isStore, eq_comm]
  · simp [Event.isStore]

/-- A process comes to `v` by a store, and leaves it by the end of the increment. -/
theorem sharing_position (h : (sharing κ intMax).step s a = some t) :
    ∃ k b, t.inc = Function.update s.inc k b ∧
      ∀ x, (s.inc k = some (x, .v) ↔ a.isEnd x) ∧ (b = some (x, .v) ↔ a.isStore x) := by
  rcases sharing_cases h with ⟨k, y, rfl, hk, rfl⟩ | ⟨k, y, i, m, r, rfl, hk, hr, rfl⟩
  · exact ⟨k, _, rfl, fun x => by simp [hk, Event.isEnd, Event.isStore]⟩
  · refine ⟨k, _, rfl, fun x => ⟨?_, ?_⟩⟩
    · cases i <;> simp [hk, Event.isEnd]
    · rw [← increment_next hr k x]
      cases r <;> simp [and_comm, eq_comm]

namespace Counting

theorem stored_step (hs : Counting as s) (h : (sharing κ intMax).step s a = some t) (x : Counter) :
    t.shm.get x = stores x (as ++ [a]) := by
  rw [stores_concat, ← hs.stored]
  rcases sharing_cases h with ⟨k, y, rfl, -, rfl⟩ | ⟨k, y, i, m, r, rfl, hk, hr, rfl⟩
  · rfl
  · rw [hs.coherent.increment_get hk hr x]
    simp only [increment_next hr k x]
    split_ifs <;> rfl

theorem ended_step (hs : Counting as s) (h : (sharing κ intMax).step s a = some t) (x : Counter) :
    (stores x (as ++ [a]) : ℕ∞) =
      completed x (as ++ [a]) + {k | t.inc k = some (x, .v)}.encard := by
  obtain ⟨k, b, hinc, hb⟩ := sharing_position h
  obtain ⟨hend, hstore⟩ := hb x
  have hmove := encard_update (f := s.inc) (k := k) (b := b) (P := (· = some (x, .v)))
  simp only [hend, hstore, ← hinc] at hmove
  calc (stores x (as ++ [a]) : ℕ∞)
      = completed x as + ({k | s.inc k = some (x, .v)}.encard + if a.isStore x then 1 else 0) := by
        rw [stores_concat, Nat.cast_add, hs.ended, add_assoc]
        split_ifs <;> rfl
    _ = completed x as + ({k | t.inc k = some (x, .v)}.encard + if a.isEnd x then 1 else 0) := by
        rw [hmove]
    _ = completed x (as ++ [a]) + {k | t.inc k = some (x, .v)}.encard := by
        rw [completed_concat, Nat.cast_add, add_assoc, add_comm {k | _}.encard]
        split_ifs <;> rfl

/-- **Every statement keeps the invariant.** -/
theorem step (hs : Counting as s) (h : (sharing κ intMax).step s a = some t) :
    Counting (as ++ [a]) t := by
  refine ⟨?_, hs.stored_step h, hs.ended_step h⟩
  rcases sharing_cases h with ⟨k, x, rfl, hk, rfl⟩ | ⟨k, x, i, m, r, rfl, hk, hr, rfl⟩
  · refine hs.coherent.update ?_ fun y i hy => ?_
    · rintro ⟨y, i, hy, -⟩
      exact Option.some_ne_none _ (hy.symm.trans hk)
    · cases hy
      exact id
  · exact hs.coherent.increment hk hr

end Counting

/-- **No update is lost.** In every reachable state at most one process is between `p` and `v`, the
semaphore is 1 minus the number of these processes, and each counter is the number of stores to it.
While no process is between `p` and `v` it is also the number of completed increments. -/
theorem no_lost_update (hrun : (sharing κ intMax).run (.start κ) as = some s) :
    (inside s.inc).encard ≤ 1 ∧ (s.shm.mutex : ℕ∞) = 1 - (inside s.inc).encard ∧
      (∀ x, s.shm.get x = stores x as) ∧
      (inside s.inc = ∅ → ∀ x, s.shm.get x = completed x as) := by
  have hs : Counting as s :=
    Machine.labels_invariant_of_step (fun _ _ _ _ hs h => hs.step h) Counting.start hrun
  refine ⟨hs.coherent.guards.encard_le, hs.coherent.guards.eq_sub, hs.stored, fun hempty x => ?_⟩
  have hnone : {k | s.inc k = some (x, .v)} = ∅ := by
    refine Set.eq_empty_of_forall_notMem fun k hk => ?_
    have hin : k ∈ inside s.inc := (mem_inside hk).mpr trivial
    exact absurd hin (hempty ▸ Set.notMem_empty k)
  have hended := hs.ended x
  rw [hnone, Set.encard_empty, add_zero, Nat.cast_inj] at hended
  rw [hs.stored, hended]

end Counting

/-- Two processes increment the first counter, and one of them the second one meanwhile. -/
def overlapping : List (Event Bool) :=
  [.call false .first, .exec false .first .p, .call true .first, .exec false .first .load,
    .exec false .first (.store 0), .exec false .first .v, .call false .second,
    .exec true .first .p, .exec true .first .load, .exec true .first (.store 1),
    .exec true .first .v, .exec false .second .p, .exec false .second .load,
    .exec false .second (.store 0), .exec false .second .v]

theorem no_lost_update_overlapping : ∃ s,
    (sharing Bool (2 ^ 31 - 1)).run (.start Bool) overlapping = some s ∧
      s.shm.get .first = 2 ∧ s.shm.get .second = 1 := by
  obtain ⟨s, hs⟩ : ∃ s, (sharing Bool (2 ^ 31 - 1)).run (.start Bool) overlapping = some s :=
    ⟨_, rfl⟩
  obtain ⟨-, -, hstores, -⟩ := no_lost_update hs
  exact ⟨s, hs, (hstores .first).trans (by decide), (hstores .second).trans (by decide)⟩

end Parikshan.Aggregator
