import Mathlib.Data.Set.Card
import Mathlib.Logic.Function.Basic

/-!
# A binary semaphore

A semaphore initialised to `1` is decremented by a process that enters a section and incremented
by one that leaves it. The invariant is that its value and the number of processes inside add up
to `1`; it makes the section exclusive.

## Main definitions

* `Semaphore.wait`, `Semaphore.signal`.
* `Semaphore.Guards`: the invariant.

## Main results

* `Semaphore.Guards.enter`, `Semaphore.Guards.leave`: both operations keep it.
* `Semaphore.Guards.eq_of_mem`: at most one process is inside.
* `Semaphore.Guards.eq_sub`: the value of the semaphore.
* `encard_update`: the number of processes somewhere, when one of them moves.
-/

namespace Parikshan.Posix

/-! ### The processes that are somewhere -/

section Update

variable {κ β : Type*} [DecidableEq κ] {f : κ → β} {k : κ} {b : β} {P : β → Prop}

theorem setOf_update_of_pos (hb : P b) :
    {j | P (Function.update f k b j)} = insert k {j | P (f j)} := by
  ext j
  by_cases hjk : j = k
  · subst hjk
    simp [hb]
  · simp [hjk]

theorem setOf_update_of_neg (hb : ¬ P b) :
    {j | P (Function.update f k b j)} = {j | P (f j)} \ {k} := by
  ext j
  by_cases hjk : j = k
  · subst hjk
    simp [hb]
  · simp [hjk]

/-- **A process moves.** -/
theorem encard_update [DecidablePred P] :
    {j | P (Function.update f k b j)}.encard + (if P (f k) then 1 else 0) =
      {j | P (f j)}.encard + if P b then 1 else 0 := by
  have hmem : k ∈ {j | P (f j)} ↔ P (f k) := Iff.rfl
  by_cases hb : P b
  · rw [setOf_update_of_pos hb, if_pos hb]
    split_ifs with hk
    · rw [Set.insert_eq_of_mem (hmem.mpr hk)]
    · rw [add_zero, Set.encard_insert_of_notMem (mt hmem.mp hk)]
  · rw [setOf_update_of_neg hb, if_neg hb, add_zero]
    split_ifs with hk
    · exact Set.encard_sdiff_singleton_add_one (hmem.mpr hk)
    · rw [add_zero, Set.sdiff_singleton_eq_self (mt hmem.mp hk)]

end Update

/-! ### The semaphore -/

namespace Semaphore

variable {κ : Type*} {m m' : ℕ} {S : Set κ} {k k' : κ}

/-- Decrement the semaphore; a process that finds it at `0` waits. -/
def wait (m : ℕ) : Option ℕ := if m = 0 then none else some (m - 1)

/-- Increment the semaphore. -/
def signal (m : ℕ) : ℕ := m + 1

/-- The value of the semaphore is `1` minus the number of processes inside. -/
def Guards (m : ℕ) (S : Set κ) : Prop := S.encard + m = 1

theorem Guards.empty : Guards 1 (∅ : Set κ) := by
  rw [Guards, Set.encard_empty, zero_add, Nat.cast_one]

theorem Guards.encard_le (h : Guards m S) : S.encard ≤ 1 := h ▸ le_self_add

theorem Guards.eq_sub (h : Guards m S) : (m : ℕ∞) = 1 - S.encard := by
  have hne : S.encard ≠ ⊤ := ne_top_of_le_ne_top ENat.one_ne_top h.encard_le
  exact (ENat.addLECancellable_of_ne_top hne).eq_tsub_of_add_eq ((add_comm _ _).trans h)

/-- At most one process is inside. -/
theorem Guards.eq_of_mem (h : Guards m S) (hk : k ∈ S) (hk' : k' ∈ S) : k = k' :=
  Set.encard_le_one_iff.mp h.encard_le k k' hk hk'

/-- A process enters an empty section. -/
theorem Guards.eq_empty (h : Guards m S) (hwait : wait m = some m') : S = ∅ ∧ m = 1 ∧ m' = 0 := by
  unfold wait at hwait
  split_ifs at hwait with hm
  have hle : (m : ℕ∞) ≤ 1 := h ▸ le_add_self
  have hm1 : m = 1 := by
    have hle' : m ≤ 1 := by exact_mod_cast hle
    omega
  subst hm1
  refine ⟨?_, rfl, (Option.some.inj hwait).symm⟩
  have hcard : S.encard + 1 = 0 + 1 := by simpa [Guards] using h
  exact Set.encard_eq_zero.mp (ENat.add_left_injective_of_ne_top ENat.one_ne_top hcard)

theorem Guards.enter (h : Guards m S) (hwait : wait m = some m') : Guards m' (insert k S) := by
  obtain ⟨rfl, rfl, rfl⟩ := h.eq_empty hwait
  simp [Guards]

theorem Guards.leave (h : Guards m S) (hk : k ∈ S) : Guards (signal m) (S \ {k}) := by
  rw [Guards, signal, Nat.cast_add, Nat.cast_one, add_comm (m : ℕ∞) 1, ← add_assoc,
    Set.encard_sdiff_singleton_add_one hk]
  exact h

end Semaphore

end Parikshan.Posix
