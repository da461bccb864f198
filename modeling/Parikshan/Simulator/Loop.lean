import Parikshan.Machine.Basic
import Mathlib.Algebra.Order.Group.Defs
import Mathlib.Algebra.Order.Ring.Nat
import Mathlib.Tactic.Common

/-!
# The event loop of the simulator

`queue_sim.c` simulates the debug window as a queue with one server: `t1` is the instant of the next
arrival and `t2` that of the next departure, and the loop takes the earlier one until the simulation
time is over or more customers are in the system than the buffer holds. While nobody is in the
system, `t2` is a time that stands for no departure at all. `loop_queue_sim.c` runs the same loop
once for each of ten buffer sizes, with another such time.

Times are in an ordered group, so nothing is rounded. The counters are `unsigned int`s. What the
loop keeps for the outputs that are commented out (`s`, `b`, `c`, `tb`) is left out.

## Main definitions

* `Pass`: what is given to the loop.
* `Pass.arrive`, `Pass.depart`, `Pass.tail`: the two branches of the loop and what follows them.
* `Pass.loop`: the machine of the loop; its labels are the branches that it takes.
-/

namespace Parikshan.Simulator

/-- The argument of `exponential`: the mean time between arrivals or the mean service time. -/
inductive Mean
  | ta
  | ts
  deriving DecidableEq, Repr

/-- The branches of the loop. -/
inductive Branch
  | arrival
  | departure
  deriving DecidableEq, Repr

/-- What is given to the loop: `end_time`, the value of `t2` while the system is empty, `buf`, and
`exponential` with the generator behind it. -/
structure Pass (T G : Type*) where
  endTime : T
  idle : T
  buf : ℕ
  exponential : Mean → G → T × G

/-- The variables of the loop. In `loop_queue_sim.c` the flag stands for the `break`. -/
structure State (T G : Type*) where
  time : T
  t1 : T
  t2 : T
  tn : T
  n : ℕ
  maxBuf : ℕ
  flag : Bool
  gen : G

/-- `n++`. -/
def incr (n : ℕ) : ℕ := (n + 1) % 2 ^ 32

/-- `n--`. -/
def decr (n : ℕ) : ℕ := if n = 0 then 2 ^ 32 - 1 else n - 1

theorem incr_of_lt {n : ℕ} (h : n + 1 < 2 ^ 32) : incr n = n + 1 := Nat.mod_eq_of_lt h

theorem decr_of_pos {n : ℕ} (h : 0 < n) : decr n = n - 1 := if_neg h.ne'

namespace Pass

variable {T G : Type*} (P : Pass T G)

section Branches

variable [AddCommGroup T]

/-- The variables before the loop, lines 59–76. -/
def start (gen : G) : State T G where
  time := 0
  t1 := 0
  t2 := P.idle
  tn := 0
  n := 0
  maxBuf := 0
  flag := false
  gen := gen

/-- Event #1, lines 82–92. -/
def arrive (s : State T G) : State T G :=
  let time := s.t1
  let n := incr s.n
  let x := P.exponential .ta s.gen
  if n = 1 then
    let y := P.exponential .ts x.2
    { s with time := time, n := n, tn := time, t1 := time + x.1, t2 := time + y.1, gen := y.2 }
  else { s with time := time, n := n, tn := time, t1 := time + x.1, gen := x.2 }

/-- Event #2, lines 95–107. -/
def depart (s : State T G) : State T G :=
  let time := s.t2
  let n := decr s.n
  if 0 < n then
    let y := P.exponential .ts s.gen
    { s with time := time, n := n, tn := time, t2 := time + y.1, gen := y.2 }
  else { s with time := time, n := n, tn := time, t2 := P.idle }

variable {P}

/-- Only `t2` and the generator depend on the inner condition. -/
theorem arrive_eq (s : State T G) : P.arrive s =
    { s with
      time := s.t1
      n := incr s.n
      tn := s.t1
      t1 := s.t1 + (P.exponential .ta s.gen).1
      t2 := (P.arrive s).t2
      gen := (P.arrive s).gen } := by
  unfold arrive
  dsimp only
  split_ifs <;> rfl

@[simp] theorem arrive_time (s : State T G) : (P.arrive s).time = s.t1 := by
  rw [arrive_eq]

@[simp] theorem arrive_tn (s : State T G) : (P.arrive s).tn = s.t1 := by
  rw [arrive_eq]

@[simp] theorem arrive_n (s : State T G) : (P.arrive s).n = incr s.n := by
  rw [arrive_eq]

@[simp] theorem arrive_t1 (s : State T G) :
    (P.arrive s).t1 = s.t1 + (P.exponential .ta s.gen).1 := by
  rw [arrive_eq]

@[simp] theorem arrive_maxBuf (s : State T G) : (P.arrive s).maxBuf = s.maxBuf := by
  rw [arrive_eq]

@[simp] theorem arrive_flag (s : State T G) : (P.arrive s).flag = s.flag := by
  rw [arrive_eq]

/-- An arrival at an empty system starts a service. -/
theorem arrive_first (h : incr s.n = 1) :
    (P.arrive s).t2 = s.t1 + (P.exponential .ts (P.exponential .ta s.gen).2).1 ∧
      (P.arrive s).gen = (P.exponential .ts (P.exponential .ta s.gen).2).2 := by
  unfold arrive
  dsimp only
  rw [if_pos h]
  exact ⟨rfl, rfl⟩

theorem arrive_later (h : incr s.n ≠ 1) :
    (P.arrive s).t2 = s.t2 ∧ (P.arrive s).gen = (P.exponential .ta s.gen).2 := by
  unfold arrive
  dsimp only
  rw [if_neg h]
  exact ⟨rfl, rfl⟩

theorem depart_eq (s : State T G) : P.depart s =
    { s with
      time := s.t2
      n := decr s.n
      tn := s.t2
      t2 := (P.depart s).t2
      gen := (P.depart s).gen } := by
  unfold depart
  dsimp only
  split_ifs <;> rfl

@[simp] theorem depart_time (s : State T G) : (P.depart s).time = s.t2 := by
  rw [depart_eq]

@[simp] theorem depart_tn (s : State T G) : (P.depart s).tn = s.t2 := by
  rw [depart_eq]

@[simp] theorem depart_n (s : State T G) : (P.depart s).n = decr s.n := by
  rw [depart_eq]

@[simp] theorem depart_t1 (s : State T G) : (P.depart s).t1 = s.t1 := by
  rw [depart_eq]

@[simp] theorem depart_maxBuf (s : State T G) : (P.depart s).maxBuf = s.maxBuf := by
  rw [depart_eq]

@[simp] theorem depart_flag (s : State T G) : (P.depart s).flag = s.flag := by
  rw [depart_eq]

/-- A departure that leaves customers behind starts a service. -/
theorem depart_pos (h : 0 < decr s.n) :
    (P.depart s).t2 = s.t2 + (P.exponential .ts s.gen).1 ∧
      (P.depart s).gen = (P.exponential .ts s.gen).2 := by
  unfold depart
  dsimp only
  rw [if_pos h]
  exact ⟨rfl, rfl⟩

theorem depart_last (h : decr s.n = 0) :
    (P.depart s).t2 = P.idle ∧ (P.depart s).gen = s.gen := by
  unfold depart
  dsimp only
  rw [h, if_neg (lt_irrefl 0)]
  exact ⟨rfl, rfl⟩

end Branches

/-- What follows both branches, lines 109–115. -/
def tail (s : State T G) : State T G :=
  { s with
    maxBuf := if s.maxBuf < s.n then s.n else s.maxBuf
    flag := s.flag || decide (P.buf < s.n) }

section Tail

variable {P}

@[simp] theorem tail_time (s : State T G) : (P.tail s).time = s.time := rfl

@[simp] theorem tail_t1 (s : State T G) : (P.tail s).t1 = s.t1 := rfl

@[simp] theorem tail_t2 (s : State T G) : (P.tail s).t2 = s.t2 := rfl

@[simp] theorem tail_tn (s : State T G) : (P.tail s).tn = s.tn := rfl

@[simp] theorem tail_n (s : State T G) : (P.tail s).n = s.n := rfl

@[simp] theorem tail_gen (s : State T G) : (P.tail s).gen = s.gen := rfl

@[simp] theorem tail_maxBuf (s : State T G) : (P.tail s).maxBuf = max s.maxBuf s.n := by
  rw [tail, max_comm, max_def]
  simp only [← not_lt, ite_not]

@[simp] theorem tail_flag (s : State T G) (h : s.flag = false) :
    (P.tail s).flag = decide (P.buf < s.n) := by
  rw [tail, h, Bool.false_or]

end Tail

/-! ### The machine -/

variable [AddCommGroup T] [LinearOrder T]

/-- The loop goes on: its condition holds and `break` has not been reached. -/
def Running (s : State T G) : Prop := s.time < P.endTime ∧ s.flag = false

instance (s : State T G) : Decidable (P.Running s) :=
  inferInstanceAs (Decidable (s.time < P.endTime ∧ s.flag = false))

/-- The loop. -/
def loop : Machine (State T G) Branch where
  step s
    | .arrival => if P.Running s ∧ s.t1 < s.t2 then some (P.tail (P.arrive s)) else none
    | .departure => if P.Running s ∧ ¬ s.t1 < s.t2 then some (P.tail (P.depart s)) else none

section Step

variable {P} {s t : State T G} {b : Branch}

theorem step_arrival (h : P.loop.step s .arrival = some t) :
    P.Running s ∧ s.t1 < s.t2 ∧ t = P.tail (P.arrive s) := by
  obtain ⟨⟨hrun, hlt⟩, heq⟩ := Option.ite_none_right_eq_some.mp h
  exact ⟨hrun, hlt, (Option.some.inj heq).symm⟩

theorem step_departure (h : P.loop.step s .departure = some t) :
    P.Running s ∧ s.t2 ≤ s.t1 ∧ t = P.tail (P.depart s) := by
  obtain ⟨⟨hrun, hlt⟩, heq⟩ := Option.ite_none_right_eq_some.mp h
  exact ⟨hrun, not_lt.mp hlt, (Option.some.inj heq).symm⟩

theorem running_of_step (h : P.loop.step s b = some t) : P.Running s := by
  cases b with
  | arrival => exact (step_arrival h).1
  | departure => exact (step_departure h).1

/-- While the loop goes on, it takes one of its branches. -/
theorem exists_step (h : P.Running s) : ∃ b t, P.loop.step s b = some t := by
  by_cases hlt : s.t1 < s.t2
  · exact ⟨.arrival, _, if_pos ⟨h, hlt⟩⟩
  · exact ⟨.departure, _, if_pos ⟨h, hlt⟩⟩

/-- The loop takes one branch only. -/
theorem step_unique {b' : Branch} {t' : State T G} (h : P.loop.step s b = some t)
    (h' : P.loop.step s b' = some t') : b = b' := by
  cases b <;> cases b'
  · rfl
  · exact absurd (step_arrival h).2.1 (not_lt.mpr (step_departure h').2.1)
  · exact absurd (step_arrival h').2.1 (not_lt.mpr (step_departure h).2.1)
  · rfl

end Step

end Pass

/-! ### The simulator -/

section QueueSim

variable {T : Type*}

/-- The draws in the order in which `exponential` is called with each mean: the interarrival times
and the service times, each numbered from `1`. -/
def draws (I S : ℕ → T) : Mean → ℕ × ℕ → T × (ℕ × ℕ)
  | .ta, (i, j) => (I (i + 1), (i + 1, j))
  | .ts, (i, j) => (S (j + 1), (i, j + 1))

/-- The loop of `queue_sim.c`, with the argument `simulationTime` for `end_time` and for `t2` while
the system is empty. -/
def queueSim (simulationTime : T) (buf : ℕ) (I S : ℕ → T) : Pass T (ℕ × ℕ) where
  endTime := simulationTime
  idle := simulationTime
  buf := buf
  exponential := draws I S

end QueueSim

end Parikshan.Simulator
