import Mathlib.Algebra.Order.Group.Defs
import Mathlib.Algebra.Order.Monoid.Unbundled.Basic
import Mathlib.Data.List.Pairwise
import Mathlib.Tactic.Common

/-!
# A queue with one server

Customer `k + 1` arrives an interarrival time after customer `k`, and is served when it has arrived
and customer `k` has left. This gives the instants of all arrivals and all departures by recursion
over the customers. In the order of time, and departures before arrivals at one instant, they are
the events of the queue; an event loop processes an initial segment of them.

Times are in an ordered group, so nothing is rounded.

## Main definitions

* `arrival`, `departure`: the instants of the customers, numbered from `1`.
* `Event`, `Event.instant`, `Before`: the events and their order.
* `InitialSegment`: a list of events in order, with all events before each of them.

## Main results

* `InitialSegment.arrive`, `InitialSegment.depart`: an initial segment goes on with the next
  arrival, or with the next departure, whichever is first.
-/

namespace Parikshan.Queueing

variable {T : Type*} [AddCommGroup T] [LinearOrder T] [IsOrderedAddMonoid T]

/-! ### The instants -/

/-- The instant at which customer `k` arrives; the first one arrives at `0`. -/
def arrival (I : ℕ → T) : ℕ → T
  | 0 => 0
  | 1 => 0
  | k + 2 => arrival I (k + 1) + I (k + 1)

/-- The instant at which customer `k` leaves. -/
def departure (I S : ℕ → T) : ℕ → T
  | 0 => 0
  | k + 1 => max (arrival I (k + 1)) (departure I S k) + S (k + 1)

section Instants

variable {I S : ℕ → T} {j k : ℕ}

omit [LinearOrder T] [IsOrderedAddMonoid T] in
theorem arrival_succ (I : ℕ → T) (hk : 1 ≤ k) : arrival I (k + 1) = arrival I k + I k := by
  obtain ⟨k, rfl⟩ := Nat.exists_eq_add_of_le' hk
  rfl

theorem arrival_lt_succ (hI : ∀ k, 0 < I k) (hk : 1 ≤ k) : arrival I k < arrival I (k + 1) := by
  rw [arrival_succ I hk]
  exact lt_add_of_pos_right _ (hI k)

theorem arrival_strictMono (hI : ∀ k, 0 < I k) (hj : 1 ≤ j) (hjk : j < k) :
    arrival I j < arrival I k := by
  induction k, hjk using Nat.le_induction with
  | base => exact arrival_lt_succ hI hj
  | succ k hjk ih => exact ih.trans (arrival_lt_succ hI (by omega))

theorem arrival_mono (hI : ∀ k, 0 < I k) (hjk : j ≤ k) : arrival I j ≤ arrival I k := by
  induction k, hjk using Nat.le_induction with
  | base => exact le_rfl
  | succ k hjk ih =>
    refine ih.trans ?_
    cases k with
    | zero => exact le_rfl
    | succ k => exact (arrival_lt_succ hI (Nat.succ_pos k)).le

/-- A customer leaves after it has arrived. -/
theorem arrival_lt_departure (hS : ∀ k, 0 < S k) (hk : 1 ≤ k) :
    arrival I k < departure I S k := by
  obtain ⟨k, rfl⟩ := Nat.exists_eq_add_of_le' hk
  exact (le_max_left _ _).trans_lt (lt_add_of_pos_right _ (hS (k + 1)))

/-- The customers leave in the order in which they have arrived. -/
theorem departure_strictMono (hS : ∀ k, 0 < S k) : StrictMono (departure I S) :=
  strictMono_nat_of_lt_succ fun k =>
    (le_max_right _ _).trans_lt (lt_add_of_pos_right _ (hS (k + 1)))

theorem departure_nonneg (hS : ∀ k, 0 < S k) (k : ℕ) : 0 ≤ departure I S k :=
  (departure_strictMono hS).monotone (Nat.zero_le k)

omit [IsOrderedAddMonoid T] in
/-- A customer that finds the one before it gone is served at once. -/
theorem departure_of_le (h : departure I S k ≤ arrival I (k + 1)) :
    departure I S (k + 1) = arrival I (k + 1) + S (k + 1) := by
  rw [departure, max_eq_left h]

omit [IsOrderedAddMonoid T] in
/-- A customer that has been waiting is served when the one before it leaves. -/
theorem departure_of_ge (h : arrival I (k + 1) ≤ departure I S k) :
    departure I S (k + 1) = departure I S k + S (k + 1) := by
  rw [departure, max_eq_right h]

end Instants

/-! ### The events -/

/-- Customer `k` arrives, or leaves. -/
inductive Event
  | arrival (k : ℕ)
  | departure (k : ℕ)
  deriving DecidableEq, Repr

/-- The number of the customer. -/
def Event.customer : Event → ℕ
  | .arrival k => k
  | .departure k => k

/-- The instant of an event. -/
def Event.instant (I S : ℕ → T) : Event → T
  | .arrival k => Queueing.arrival I k
  | .departure k => Queueing.departure I S k

/-- The order of events: by their instants, and departures first. -/
def Before (I S : ℕ → T) (e f : Event) : Prop :=
  e.instant I S < f.instant I S ∨
    e.instant I S = f.instant I S ∧ ∃ j k, e = .departure j ∧ f = .arrival k

/-- A list of events in order that contains all events before each of its own. -/
structure InitialSegment (I S : ℕ → T) (l : List Event) : Prop where
  sorted : l.Pairwise (Before I S)
  closed : ∀ e ∈ l, ∀ f, 1 ≤ f.customer → f ∉ l → Before I S e f

/-- The list has the first `a` arrivals and the first `d` departures. -/
structure Counts (l : List Event) (a d : ℕ) : Prop where
  arrival : ∀ k, .arrival k ∈ l ↔ 1 ≤ k ∧ k ≤ a
  departure : ∀ k, .departure k ∈ l ↔ 1 ≤ k ∧ k ≤ d

section Segments

variable {I S : ℕ → T} {l : List Event} {a d : ℕ}

omit [IsOrderedAddMonoid T] in
theorem InitialSegment.nil : InitialSegment I S [] := ⟨.nil, by simp⟩

theorem Counts.nil : Counts [] 0 0 :=
  ⟨fun k => by simp only [List.not_mem_nil, false_iff]; omega,
    fun k => by simp only [List.not_mem_nil, false_iff]; omega⟩

theorem Counts.arrive (h : Counts l a d) : Counts (l ++ [.arrival (a + 1)]) (a + 1) d where
  arrival k := by
    rw [List.mem_append, h.arrival, List.mem_singleton, Event.arrival.injEq]
    omega
  departure k := by
    rw [List.mem_append, h.departure, List.mem_singleton]
    simp

theorem Counts.depart (h : Counts l a d) : Counts (l ++ [.departure (d + 1)]) a (d + 1) where
  arrival k := by
    rw [List.mem_append, h.arrival, List.mem_singleton]
    simp
  departure k := by
    rw [List.mem_append, h.departure, List.mem_singleton, Event.departure.injEq]
    omega

omit [IsOrderedAddMonoid T] in
/-- An event that comes after all of the list and before all others is the next one. -/
theorem InitialSegment.append (h : InitialSegment I S l) {e : Event} (he : 1 ≤ e.customer)
    (hnot : e ∉ l)
    (hnext : ∀ f, 1 ≤ f.customer → f ∉ l → f ≠ e → Before I S e f) :
    InitialSegment I S (l ++ [e]) where
  sorted := by
    refine List.pairwise_append.mpr ⟨h.sorted, List.pairwise_singleton _ _, fun x hx y hy => ?_⟩
    obtain rfl := List.mem_singleton.mp hy
    exact h.closed x hx y he hnot
  closed x hx f hf hfl := by
    rw [List.mem_append, List.mem_singleton, not_or] at hfl
    rcases List.mem_append.mp hx with hx | hx
    · exact h.closed x hx f hf hfl.1
    · obtain rfl := List.mem_singleton.mp hx
      exact hnext f hf hfl.1 hfl.2

/-- The next arrival is the next event if it is before the next departure. -/
theorem InitialSegment.arrive (h : InitialSegment I S l) (hI : ∀ k, 0 < I k) (hS : ∀ k, 0 < S k)
    (hc : Counts l a d)
    (hlt : Queueing.arrival I (a + 1) < Queueing.departure I S (d + 1)) :
    InitialSegment I S (l ++ [.arrival (a + 1)]) := by
  refine h.append (Nat.succ_pos a) (fun hmem => ?_) fun f hf hfl hne => Or.inl ?_
  · exact Nat.not_succ_le_self a ((hc.arrival _).mp hmem).2
  · cases f with
    | arrival k =>
      have hk : a + 1 < k := by
        have hnot := mt (hc.arrival k).mpr hfl
        have hk : k ≠ a + 1 := fun heq => hne (heq ▸ rfl)
        have hk₁ : 1 ≤ k := hf
        omega
      exact arrival_strictMono hI (Nat.succ_pos a) hk
    | departure k =>
      have hk : d + 1 ≤ k := by
        have hnot := mt (hc.departure k).mpr hfl
        have hk₁ : 1 ≤ k := hf
        omega
      exact hlt.trans_le ((departure_strictMono hS).monotone hk)

/-- The next departure is the next event if it is not after the next arrival. -/
theorem InitialSegment.depart (h : InitialSegment I S l) (hI : ∀ k, 0 < I k) (hS : ∀ k, 0 < S k)
    (hc : Counts l a d)
    (hle : Queueing.departure I S (d + 1) ≤ Queueing.arrival I (a + 1)) :
    InitialSegment I S (l ++ [.departure (d + 1)]) := by
  refine h.append (Nat.succ_pos d) (fun hmem => ?_) fun f hf hfl hne => ?_
  · exact Nat.not_succ_le_self d ((hc.departure _).mp hmem).2
  · cases f with
    | arrival k =>
      have hk : a + 1 ≤ k := by
        have hnot := mt (hc.arrival k).mpr hfl
        have hk₁ : 1 ≤ k := hf
        omega
      rcases (hle.trans (arrival_mono hI hk)).lt_or_eq with hlt | heq
      · exact Or.inl hlt
      · exact Or.inr ⟨heq, d + 1, k, rfl, rfl⟩
    | departure k =>
      have hk : d + 1 < k := by
        have hnot := mt (hc.departure k).mpr hfl
        have hk : k ≠ d + 1 := fun heq => hne (heq ▸ rfl)
        have hk₁ : 1 ≤ k := hf
        omega
      exact Or.inl (departure_strictMono hS hk)

end Segments

end Parikshan.Queueing
