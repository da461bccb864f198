import Parikshan.Queueing.Accounts
import Parikshan.Simulator.Merge
import Mathlib.Tactic.Abel

/-!
# What the simulator measures

Beside the clocks, `queue_sim.c` keeps the area `s` under the number of customers in the system, the
busy time `b` of the server with the start `tb` of the last busy period, and the number `c` of
completions. The mean number in the system, the throughput, the utilization and, by Little's law,
the mean residence time are computed from them; the lines that do so are commented out.

`tb` is not initialized. Here it has no value until it is set, and `b` has none once an
indeterminate one has been used.

## Main definitions

* `Stats`, `Stats.arrive`, `Stats.depart`: the variables and what the branches do to them.
* `Pass.gathering`: the loop with these variables.
* `Gathered`: the invariant.

## Main results

* `queueSim_area`: the area is the time that the customers have spent in the system.
* `queueSim_busy`: the busy time is the time for which the server has worked.
-/

namespace Parikshan.Simulator

open Queueing

/-- The area of the number of customers in the system, the busy time, the completions and the last
start of busy time. -/
structure Stats (T : Type*) where
  s : T
  b : Option T
  c : ℕ
  tb : Option T

namespace Stats

variable {T G : Type*} [AddCommGroup T]

/-- The variables before the loop, lines 63–67. -/
def start : Stats T where
  s := 0
  b := some 0
  c := 0
  tb := none

/-- Event #1, lines 84 and 90, in the state before it. -/
def arrive (y : Stats T) (x : State T G) : Stats T :=
  { y with
    s := y.s + x.n • (x.t1 - x.tn)
    tb := if incr x.n = 1 then some x.t1 else y.tb }

/-- Event #2, lines 97, 100 and 106, in the state before it. -/
def depart (y : Stats T) (x : State T G) : Stats T :=
  { y with
    s := y.s + x.n • (x.t2 - x.tn)
    b := if 0 < decr x.n then y.b else y.b.bind fun b => y.tb.map fun tb => b + x.t2 - tb
    c := incr y.c }

/-- The branches. -/
def next (y : Stats T) (x : State T G) : Branch → Stats T
  | .arrival => y.arrive x
  | .departure => y.depart x

end Stats

/-- The loop with all its variables. -/
def Pass.gathering {T G : Type*} [AddCommGroup T] [LinearOrder T] (P : Pass T G) :
    Machine (State T G × Stats T) Branch where
  step x b := (P.loop.step x.1 b).map fun s => (s, x.2.next x.1 b)

/-- The other variables do not depend on these. -/
theorem Pass.run_gathering {T G : Type*} [AddCommGroup T] [LinearOrder T] {P : Pass T G}
    {s t : State T G} {bs : List Branch} (y : Stats T) :
    P.loop.run s bs = some t ↔ ∃ z, P.gathering.run (s, y) bs = some (t, z) := by
  induction bs generalizing s y with
  | nil => simp
  | cons b bs ih =>
    rw [Machine.run_cons_eq_some]
    refine ⟨fun ⟨u, hu, hrun⟩ => ?_, fun ⟨z, hrun⟩ => ?_⟩
    · obtain ⟨z, hz⟩ := (ih (y.next s b)).mp hrun
      exact ⟨z, (Machine.run_cons_eq_some _).mpr ⟨(u, y.next s b), by simp [gathering, hu], hz⟩⟩
    · obtain ⟨⟨u, y'⟩, hu, hz⟩ := (Machine.run_cons_eq_some _).mp hrun
      obtain ⟨u', hu', heq⟩ := Option.map_eq_some_iff.mp hu
      obtain ⟨rfl, rfl⟩ := Prod.mk.inj heq
      exact ⟨u', hu', (ih _).mpr ⟨z, hz⟩⟩

section Gathered

variable {T : Type*} [AddCommGroup T] [LinearOrder T] [IsOrderedAddMonoid T] {I S : ℕ → T}
  {simulationTime : T} {buf : ℕ} {bs : List Branch} {s t : State T (ℕ × ℕ)} {y : Stats T}
  {b : Branch}

/-- What the variables are after the iterations `bs`: in a busy period the busy time is that of the
customers before the one in service without the present period, which ends when he leaves if nobody
arrives. -/
structure Gathered (I S : ℕ → T) (simulationTime : T) (buf : ℕ) (bs : List Branch)
    (s : State T (ℕ × ℕ)) (y : Stats T) : Prop where
  following : Following I S simulationTime bs s
  merged : Merged I S buf bs s
  area : y.s = timeInSystem I S (arrivals bs) (departures bs) s.time
  count : y.c = departures bs % 2 ^ 32
  idle : departures bs = arrivals bs → y.b = some (timeInService S (departures bs))
  busy : departures bs < arrivals bs → ∃ v t₀, y.b = some v ∧ y.tb = some t₀ ∧
    v + (departure I S (departures bs + 1) - t₀) = timeInService S (departures bs + 1)

omit [IsOrderedAddMonoid T] in
theorem Gathered.start : Gathered I S simulationTime buf []
    ((queueSim simulationTime buf I S).start (0, 0)) .start where
  following := .start
  merged := .start
  area := (timeInSystem_zero _).symm
  count := rfl
  idle _ := congrArg some timeInService_zero.symm
  busy h := absurd h (lt_irrefl 0)

omit [IsOrderedAddMonoid T] in
/-- The area at the next event. -/
theorem Gathered.advance (h : Gathered I S simulationTime buf bs s y) (u : T) :
    y.s + s.n • (u - s.tn) = timeInSystem I S (arrivals bs) (departures bs) u := by
  rw [h.area, h.following.n, h.merged.instant.1, ← timeInSystem_advance]

omit [IsOrderedAddMonoid T] in
/-- An arrival starts a busy period, or falls into one. -/
theorem Gathered.arrive (h : Gathered I S simulationTime buf bs s y)
    (hn : s.n + 1 < 2 ^ 32) (ht : Following I S simulationTime (bs ++ [.arrival]) t)
    (hm : Merged I S buf (bs ++ [.arrival]) t) (htime : t.time = s.t1) :
    Gathered I S simulationTime buf (bs ++ [.arrival]) t (y.arrive s) := by
  have hle := h.following.le
  have ht1 := h.following.t1
  refine ⟨ht, hm, ?_, ?_, fun hidle => ?_, fun _ => ?_⟩
  · rw [arrivals_arrival, departures_arrival, htime, timeInSystem_arrive hle ht1]
    exact h.advance s.t1
  · rw [departures_arrival]
    exact h.count
  · rw [arrivals_arrival, departures_arrival] at hidle
    omega
  · rw [departures_arrival]
    have hincr := h.following.incr_n hn
    rcases hle.lt_or_eq with hbusy | hempty
    · obtain ⟨v, t₀, hb, htb, hwork⟩ := h.busy hbusy
      refine ⟨v, t₀, hb, ?_, hwork⟩
      rw [Stats.arrive, if_neg (by rw [hincr]; omega), htb]
    · -- he finds nobody, and is served at once
      have hgone : departure I S (departures bs) ≤ arrival I (arrivals bs + 1) :=
        ht1 ▸ h.following.left.trans h.following.next
      refine ⟨timeInService S (departures bs), s.t1, h.idle hempty, ?_, ?_⟩
      · rw [Stats.arrive, if_pos (by rw [hincr]; omega)]
      · rw [hempty] at hgone ⊢
        rw [departure_of_le hgone, ht1, add_sub_cancel_left, timeInService_succ]

/-- A departure ends a busy period, or the next service starts. -/
theorem Gathered.depart (h : Gathered I S simulationTime buf bs s y) (hI : ∀ k, 0 < I k)
    (hn : 1 ≤ s.n) (ht : Following I S simulationTime (bs ++ [.departure]) t)
    (hm : Merged I S buf (bs ++ [.departure]) t) (htime : t.time = s.t2) :
    Gathered I S simulationTime buf (bs ++ [.departure]) t (y.depart s) := by
  have hbusy : departures bs < arrivals bs := by
    have hsn := h.following.n
    omega
  have hdecr : decr s.n = arrivals bs - (departures bs + 1) := by
    rw [decr_of_pos hn, h.following.n]
    omega
  obtain ⟨ht2, -, hserved⟩ := h.following.busy hbusy
  obtain ⟨v, t₀, hb, htb, hwork⟩ := h.busy hbusy
  refine ⟨ht, hm, ?_, ?_, fun hidle => ?_, fun hmore => ?_⟩
  · rw [arrivals_departure, departures_departure, htime, timeInSystem_depart hbusy ht2]
    exact h.advance s.t2
  · change incr y.c = _
    rw [departures_departure, h.count, incr, Nat.mod_add_mod]
  · rw [arrivals_departure, departures_departure] at hidle
    rw [departures_departure, ← hwork, Stats.depart, if_neg (by rw [hdecr]; omega), hb, htb, ht2]
    exact congrArg some (add_sub_assoc _ _ _)
  · rw [arrivals_departure, departures_departure] at hmore
    rw [departures_departure]
    -- the next customer has been waiting
    have hwaiting : arrival I (departures bs + 2) ≤ departure I S (departures bs + 1) :=
      (arrival_mono hI hmore).trans (ht2 ▸ h.following.arrived.trans hserved)
    refine ⟨v, t₀, ?_, htb, ?_⟩
    · rw [Stats.depart, if_pos (by rw [hdecr]; omega), hb]
    · rw [departure_of_ge hwaiting, timeInService_succ, ← hwork, add_sub_right_comm,
        ← add_assoc]

/-- An iteration that does not take the departure branch with nobody in the system. -/
theorem Gathered.step (hI : ∀ k, 0 < I k) (hS : ∀ k, 0 < S k) (hbuf : buf < 2 ^ 31)
    (h : Gathered I S simulationTime buf bs s y) (hb : Occupied s b)
    (hstep : (queueSim simulationTime buf I S).loop.step s b = some t) :
    Gathered I S simulationTime buf (bs ++ [b]) t (y.next s b) := by
  obtain ⟨⟨hf, hm⟩, -⟩ := Merged.step hI hS hbuf ⟨h.following, h.merged⟩ hb hstep
  cases b with
  | arrival =>
    obtain ⟨hrunning, -, rfl⟩ := Pass.step_arrival hstep
    have hsmall := h.merged.inSystem_le hrunning
    refine h.arrive ?_ hf hm (Pass.arrive_time s)
    rw [h.merged.count.2]
    omega
  | departure =>
    obtain ⟨-, -, rfl⟩ := Pass.step_departure hstep
    exact h.depart hI (hb rfl) hf hm (Pass.depart_time s)

/-- The departure branch is taken only with somebody in the system. -/
def OccupiedBy (x : State T (ℕ × ℕ) × Stats T) (b : Branch) : Prop := Occupied x.1 b

theorem Gathered.run {x : State T (ℕ × ℕ) × Stats T} (hI : ∀ k, 0 < I k) (hS : ∀ k, 0 < S k)
    (hbuf : buf < 2 ^ 31)
    (hoccupied : (queueSim simulationTime buf I S).gathering.Along OccupiedBy
      ((queueSim simulationTime buf I S).start (0, 0), .start) bs)
    (hrun : (queueSim simulationTime buf I S).gathering.run
      ((queueSim simulationTime buf I S).start (0, 0), .start) bs = some x) :
    Gathered I S simulationTime buf bs x.1 x.2 := by
  have hstart : Gathered I S simulationTime buf []
      ((queueSim simulationTime buf I S).start (0, 0)) .start := .start
  refine hoccupied.labels_invariant
    (J := fun past x => Gathered I S simulationTime buf past x.1 x.2)
    (fun past x b x' hx hb hstep => ?_) hstart hrun
  obtain ⟨t, ht, rfl⟩ := Option.map_eq_some_iff.mp hstep
  exact hx.step hI hS hbuf hb ht

instance (x : State T (ℕ × ℕ) × Stats T) (b : Branch) : Decidable (OccupiedBy x b) :=
  inferInstanceAs (Decidable (Occupied x.1 b))

end Gathered

end Parikshan.Simulator
