import Parikshan.Queueing.Recursion
import Mathlib.Algebra.BigOperators.Intervals
import Mathlib.Algebra.Order.BigOperators.Group.Finset

/-!
# Time in the system and time in service

Two sums over the customers of a queue with one server, after some arrivals and some departures: the
time that the customers have spent in the system, and the time for which the server has worked. The
first grows between two events by the number of customers in the system times the time between the
events; an event itself does not change it. This is Little's law for a finite run: the area under
the number of customers in the system is the sum of the times that they spend in it.

## Main definitions

* `timeInSystem`: the time that `a` customers of whom `d` have left have spent in the system.
* `timeInService`: the time for which the server has served the first `d` customers.

## Main results

* `timeInSystem_advance`, `timeInSystem_arrive`, `timeInSystem_depart`: what changes it.
* `timeInSystem_eq_sum_min`: the customers who have left, and those who have not, in one sum.
* `timeInService_le`: the server works at most all the time.
* `timeInSystem_empty`: with nobody in the system it is the sum of the residence times.
-/

namespace Parikshan.Queueing

open Finset

variable {T : Type*} [AddCommGroup T] [LinearOrder T]

/-- The time that the first `a` customers have spent in the system at the instant `t`, when `d` of
them have left. -/
def timeInSystem (I S : ℕ → T) (a d : ℕ) (t : T) : T :=
  ∑ k ∈ range d, (departure I S (k + 1) - arrival I (k + 1)) +
    ∑ k ∈ Ico d a, (t - arrival I (k + 1))

/-- The time that it takes to serve the first `d` customers. -/
def timeInService {T : Type*} [AddCommGroup T] (S : ℕ → T) (d : ℕ) : T := ∑ k ∈ range d, S (k + 1)

section Accounts

variable {I S : ℕ → T} {a d : ℕ} {t u : T}

@[simp] theorem timeInSystem_zero (t : T) : timeInSystem I S 0 0 t = 0 := by
  simp [timeInSystem]

omit [LinearOrder T] in
@[simp] theorem timeInService_zero : timeInService S 0 = 0 := by
  simp [timeInService]

omit [LinearOrder T] in
theorem timeInService_succ (S : ℕ → T) (d : ℕ) :
    timeInService S (d + 1) = timeInService S d + S (d + 1) :=
  sum_range_succ _ _

/-- Between two events the customers in the system spend the time in it that goes by. -/
theorem timeInSystem_advance (I S : ℕ → T) (a d : ℕ) (t u : T) :
    timeInSystem I S a d u = timeInSystem I S a d t + (a - d) • (u - t) := by
  have hterm : ∀ k ∈ Ico d a, u - arrival I (k + 1) = t - arrival I (k + 1) + (u - t) :=
    fun k _ => (sub_add_sub_cancel' _ _ _).symm
  rw [timeInSystem, timeInSystem, sum_congr rfl hterm, sum_add_distrib, sum_const, Nat.card_Ico,
    add_assoc]

/-- A customer who arrives has not spent any time in the system yet. -/
theorem timeInSystem_arrive (h : d ≤ a) (ht : t = arrival I (a + 1)) :
    timeInSystem I S (a + 1) d t = timeInSystem I S a d t := by
  rw [timeInSystem, sum_Ico_succ_top h, ← ht, sub_self, add_zero, timeInSystem]

/-- A customer who leaves has spent the time up to now in the system. -/
theorem timeInSystem_depart (h : d < a) (ht : t = departure I S (d + 1)) :
    timeInSystem I S a (d + 1) t = timeInSystem I S a d t := by
  rw [timeInSystem, sum_range_succ, timeInSystem, sum_eq_sum_Ico_succ_bot h, ht, add_assoc]

/-- A customer who has left spent the time up to the departure in the system, and one who has not
the time up to now. -/
theorem timeInSystem_eq_sum_min [IsOrderedAddMonoid T] (hS : ∀ k, 0 < S k) (h : d ≤ a)
    (hleft : departure I S d ≤ t) (hnext : d < a → t ≤ departure I S (d + 1)) :
    timeInSystem I S a d t =
      ∑ k ∈ range a, (min (departure I S (k + 1)) t - arrival I (k + 1)) := by
  have hmono := (departure_strictMono (I := I) hS).monotone
  have hgone : ∀ k ∈ range d, departure I S (k + 1) - arrival I (k + 1) =
      min (departure I S (k + 1)) t - arrival I (k + 1) := by
    intro k hk
    rw [min_eq_left ((hmono (mem_range.mp hk)).trans hleft)]
  have hpresent : ∀ k ∈ Ico d a, t - arrival I (k + 1) =
      min (departure I S (k + 1)) t - arrival I (k + 1) := by
    intro k hk
    obtain ⟨hdk, hka⟩ := mem_Ico.mp hk
    rw [min_eq_right ((hnext (hdk.trans_lt hka)).trans (hmono (Nat.succ_le_succ hdk)))]
  rw [timeInSystem, sum_congr rfl hgone, sum_congr rfl hpresent, sum_range_add_sum_Ico _ h]

/-- **Little's law**, with nobody in the system: the sum of the residence times. -/
theorem timeInSystem_empty (I S : ℕ → T) (d : ℕ) (t : T) :
    timeInSystem I S d d t = ∑ k ∈ range d, (departure I S (k + 1) - arrival I (k + 1)) := by
  rw [timeInSystem, Ico_self, sum_empty, add_zero]

/-- The server cannot have worked for longer than up to the last departure. -/
theorem timeInService_le [IsOrderedAddMonoid T] (I S : ℕ → T) (d : ℕ) :
    timeInService S d ≤ departure I S d := by
  induction d with
  | zero => exact (timeInService_zero (S := S)).le
  | succ d ih =>
    rw [timeInService_succ, departure]
    exact add_le_add_left (ih.trans (le_max_right _ _)) _

end Accounts

end Parikshan.Queueing
