import Parikshan.Queueing.Recursion
import Parikshan.Simulator.Loop
import Mathlib.Algebra.Order.Ring.Int

/-!
# The simulator and the recursion over the customers

With positive interarrival and service times `queue_sim.c` processes the arrivals and the departures
of the queue in the order of time, as long as it does not take the departure branch with nobody in
the system. What ties its clocks to the recursion is which customer is in service: while there are
more arrivals than departures, `t2` is the instant at which the next customer leaves.

## Main definitions

* `processed`: the events of the iterations.
* `Following`: the invariant.
* `Merged`: what the loop has done after some iterations.

## Main results

* `queueSim_merged`: the loop refines the recursion.
-/

namespace Parikshan.Simulator

open Queueing

/-! ### The events of the iterations -/

/-- The iterations that have taken the arrival branch. -/
def arrivals (bs : List Branch) : ℕ := bs.count .arrival

/-- The iterations that have taken the departure branch. -/
def departures (bs : List Branch) : ℕ := bs.count .departure

/-- The events of some iterations that follow `a` arrivals and `d` departures. -/
def eventsFrom : ℕ → ℕ → List Branch → List Event
  | _, _, [] => []
  | a, d, .arrival :: bs => .arrival (a + 1) :: eventsFrom (a + 1) d bs
  | a, d, .departure :: bs => .departure (d + 1) :: eventsFrom a (d + 1) bs

/-- The events of the iterations, in order. -/
def processed (bs : List Branch) : List Event := eventsFrom 0 0 bs

section Events

variable {a d : ℕ} {bs : List Branch}

@[simp] theorem arrivals_nil : arrivals [] = 0 := rfl

@[simp] theorem departures_nil : departures [] = 0 := rfl

@[simp] theorem arrivals_arrival : arrivals (bs ++ [.arrival]) = arrivals bs + 1 := by
  simp [arrivals]

@[simp] theorem departures_arrival : departures (bs ++ [.arrival]) = departures bs := by
  simp [departures]

@[simp] theorem arrivals_departure : arrivals (bs ++ [.departure]) = arrivals bs := by
  simp [arrivals]

@[simp] theorem departures_departure : departures (bs ++ [.departure]) = departures bs + 1 := by
  simp [departures]

theorem eventsFrom_append (cs : List Branch) :
    eventsFrom a d (bs ++ cs) =
      eventsFrom a d bs ++ eventsFrom (a + arrivals bs) (d + departures bs) cs := by
  induction bs generalizing a d with
  | nil => rfl
  | cons b bs ih =>
    cases b with
    | arrival =>
      rw [List.cons_append, eventsFrom, ih, eventsFrom, arrivals, arrivals, departures, departures,
        List.count_cons_self, List.count_cons_of_ne (by simp), List.cons_append]
      congr 3
      omega
    | departure =>
      rw [List.cons_append, eventsFrom, ih, eventsFrom, arrivals, arrivals, departures, departures,
        List.count_cons_self, List.count_cons_of_ne (by simp), List.cons_append]
      congr 3
      omega

theorem processed_arrival :
    processed (bs ++ [.arrival]) = processed bs ++ [.arrival (arrivals bs + 1)] := by
  rw [processed, eventsFrom_append, Nat.zero_add, eventsFrom, eventsFrom, processed]

theorem processed_departure :
    processed (bs ++ [.departure]) = processed bs ++ [.departure (departures bs + 1)] := by
  rw [processed, eventsFrom_append, Nat.zero_add, Nat.zero_add, eventsFrom, eventsFrom, processed]

end Events

/-! ### The invariant -/

section Following

variable {T : Type*} [AddCommGroup T] [LinearOrder T] [IsOrderedAddMonoid T] {I S : ℕ → T}
  {simulationTime : T} {buf : ℕ} {bs : List Branch} {s t : State T (ℕ × ℕ)}

/-- The clocks after the iterations `bs`: the next arrival is that of the next customer, and while
somebody is in the system, the next departure is that of the customer in service. -/
structure Following (I S : ℕ → T) (simulationTime : T) (bs : List Branch)
    (s : State T (ℕ × ℕ)) : Prop where
  le : departures bs ≤ arrivals bs
  n : s.n = arrivals bs - departures bs
  t1 : s.t1 = arrival I (arrivals bs + 1)
  busy : departures bs < arrivals bs → s.t2 = departure I S (departures bs + 1) ∧
    s.gen = (arrivals bs, departures bs + 1) ∧ s.time ≤ s.t2
  empty : departures bs = arrivals bs → s.t2 = simulationTime ∧
    s.gen = (arrivals bs, departures bs)
  arrived : arrival I (arrivals bs) ≤ s.time
  left : departure I S (departures bs) ≤ s.time
  next : s.time ≤ s.t1
  segment : InitialSegment I S (processed bs)
  counts : Counts (processed bs) (arrivals bs) (departures bs)

omit [IsOrderedAddMonoid T] in
theorem Following.start : Following I S simulationTime []
    ((queueSim simulationTime buf I S).start (0, 0)) where
  le := le_rfl
  n := rfl
  t1 := rfl
  busy h := absurd h (lt_irrefl 0)
  empty _ := ⟨rfl, rfl⟩
  arrived := le_rfl
  left := le_rfl
  next := le_rfl
  segment := .nil
  counts := .nil

omit [IsOrderedAddMonoid T] in
/-- The interarrival time that is drawn next. -/
theorem Following.interarrival (hs : Following I S simulationTime bs s) (buf : ℕ) :
    ((queueSim simulationTime buf I S).exponential .ta s.gen).1 = I (arrivals bs + 1) := by
  rcases hs.le.lt_or_eq with hbusy | hempty
  · rw [(hs.busy hbusy).2.1]
    rfl
  · rw [(hs.empty hempty).2]
    rfl

omit [IsOrderedAddMonoid T] in
theorem Following.incr_n (hs : Following I S simulationTime bs s) (hn : s.n + 1 < 2 ^ 32) :
    incr s.n = arrivals bs + 1 - departures bs := by
  have hle := hs.le
  rw [incr_of_lt hn, hs.n]
  omega

/-- At an arrival the service of the next customer starts, or is still in progress. -/
theorem Following.arrive_service (hs : Following I S simulationTime bs s) (hS : ∀ k, 0 < S k)
    (buf : ℕ) (hn : s.n + 1 < 2 ^ 32) (hlt : s.t1 < s.t2) :
    ((queueSim simulationTime buf I S).arrive s).t2 = departure I S (departures bs + 1) ∧
      ((queueSim simulationTime buf I S).arrive s).gen = (arrivals bs + 1, departures bs + 1) ∧
      arrival I (arrivals bs + 1) < departure I S (departures bs + 1) := by
  have hn' := hs.incr_n hn
  rcases hs.le.lt_or_eq with hbusy | hempty
  · obtain ⟨ht2, hgen, -⟩ := hs.busy hbusy
    obtain ⟨ht2', hgen'⟩ := Pass.arrive_later (P := queueSim simulationTime buf I S)
      (s := s) (by rw [hn']; omega)
    refine ⟨ht2'.trans ht2, ?_, by rwa [← ht2, ← hs.t1]⟩
    rw [hgen', hgen]
    rfl
  · obtain ⟨-, hgen⟩ := hs.empty hempty
    obtain ⟨ht2', hgen'⟩ := Pass.arrive_first (P := queueSim simulationTime buf I S)
      (s := s) (by rw [hn']; omega)
    have hleft : departure I S (departures bs) ≤ arrival I (arrivals bs + 1) :=
      hs.t1 ▸ hs.left.trans hs.next
    rw [hempty] at hleft ⊢
    refine ⟨?_, ?_, arrival_lt_departure hS (Nat.succ_pos _)⟩
    · rw [ht2', departure_of_le hleft, hgen, hs.t1, hempty]
      rfl
    · rw [hgen', hgen, hempty]
      rfl

/-- An arrival keeps the invariant. -/
theorem Following.arrive (hs : Following I S simulationTime bs s) (hI : ∀ k, 0 < I k)
    (hS : ∀ k, 0 < S k) (buf : ℕ) (hn : s.n + 1 < 2 ^ 32) (hlt : s.t1 < s.t2) :
    Following I S simulationTime (bs ++ [.arrival])
      ((queueSim simulationTime buf I S).tail ((queueSim simulationTime buf I S).arrive s)) := by
  have hle := hs.le
  have hdraw := hs.interarrival buf
  obtain ⟨ht2, hgen, hbefore⟩ := hs.arrive_service hS buf hn hlt
  refine ⟨?_, ?_, ?_, fun _ => ?_, fun hempty => ?_, ?_, ?_, ?_, ?_, ?_⟩
  · rw [arrivals_arrival, departures_arrival]
    omega
  · rw [arrivals_arrival, departures_arrival, Pass.tail_n, Pass.arrive_n, hs.incr_n hn]
  · rw [arrivals_arrival, Pass.tail_t1, Pass.arrive_t1, hs.t1, arrival_succ I (Nat.succ_pos _),
      hdraw]
  · rw [arrivals_arrival, departures_arrival, Pass.tail_t2, Pass.tail_gen, Pass.tail_time,
      Pass.arrive_time, ht2, hs.t1]
    exact ⟨rfl, hgen, hbefore.le⟩
  · rw [arrivals_arrival, departures_arrival] at hempty
    omega
  · rw [arrivals_arrival, Pass.tail_time, Pass.arrive_time, hs.t1]
  · rw [departures_arrival, Pass.tail_time, Pass.arrive_time]
    exact hs.left.trans hs.next
  · rw [Pass.tail_time, Pass.arrive_time, Pass.tail_t1, Pass.arrive_t1, hdraw]
    exact le_add_of_nonneg_right (hI _).le
  · rw [processed_arrival]
    exact hs.segment.arrive hI hS hs.counts hbefore
  · rw [processed_arrival, arrivals_arrival, departures_arrival]
    exact hs.counts.arrive

/-- At a departure that leaves customers behind the service of the next one starts: he has been
waiting. -/
theorem Following.depart_service (hs : Following I S simulationTime bs s) (hI : ∀ k, 0 < I k)
    (buf : ℕ) (hmore : departures bs + 1 < arrivals bs) :
    ((queueSim simulationTime buf I S).depart s).t2 = departure I S (departures bs + 2) ∧
      ((queueSim simulationTime buf I S).depart s).gen = (arrivals bs, departures bs + 2) ∧
      departure I S (departures bs + 2) = s.t2 + S (departures bs + 2) := by
  obtain ⟨ht2, hgen, htime⟩ := hs.busy (Nat.lt_of_succ_lt hmore)
  have hn : decr s.n = arrivals bs - (departures bs + 1) := by
    rw [decr_of_pos (by rw [hs.n]; omega), hs.n]
    omega
  obtain ⟨ht2', hgen'⟩ := Pass.depart_pos (P := queueSim simulationTime buf I S) (s := s)
    (by rw [hn]; omega)
  have hwaiting : arrival I (departures bs + 2) ≤ departure I S (departures bs + 1) :=
    (arrival_mono hI hmore).trans (ht2 ▸ hs.arrived.trans htime)
  have hservice : departure I S (departures bs + 2) =
      departure I S (departures bs + 1) + S (departures bs + 2) := departure_of_ge hwaiting
  rw [hgen] at ht2' hgen'
  refine ⟨?_, hgen', by rw [hservice, ht2]⟩
  rw [ht2', hservice, ht2]
  rfl

/-- A departure keeps the invariant, unless nobody is in the system. -/
theorem Following.depart (hs : Following I S simulationTime bs s) (hI : ∀ k, 0 < I k)
    (hS : ∀ k, 0 < S k) (buf : ℕ) (hn : 1 ≤ s.n) (hle : s.t2 ≤ s.t1) :
    Following I S simulationTime (bs ++ [.departure])
      ((queueSim simulationTime buf I S).tail ((queueSim simulationTime buf I S).depart s)) := by
  have hbusy : departures bs < arrivals bs := by
    have hsn := hs.n
    omega
  obtain ⟨ht2, hgen, htime⟩ := hs.busy hbusy
  have hn' : decr s.n = arrivals bs - (departures bs + 1) := by
    rw [decr_of_pos hn, hs.n]
    omega
  have hbefore : departure I S (departures bs + 1) ≤ arrival I (arrivals bs + 1) := by
    rwa [← ht2, ← hs.t1]
  have harrived : arrival I (arrivals bs) ≤ departure I S (departures bs + 1) :=
    ht2 ▸ hs.arrived.trans htime
  refine ⟨?_, ?_, ?_, fun hmore => ?_, fun hempty => ?_, ?_, ?_, ?_, ?_, ?_⟩
  · rw [arrivals_departure, departures_departure]
    exact hbusy
  · rw [arrivals_departure, departures_departure, Pass.tail_n, Pass.depart_n, hn']
  · rw [arrivals_departure, Pass.tail_t1, Pass.depart_t1, hs.t1]
  · rw [arrivals_departure, departures_departure] at hmore
    rw [arrivals_departure, departures_departure, Pass.tail_t2, Pass.tail_gen, Pass.tail_time,
      Pass.depart_time]
    obtain ⟨ht2', hgen', hservice⟩ := hs.depart_service hI buf hmore
    refine ⟨ht2', hgen', ?_⟩
    rw [ht2', hservice]
    exact le_add_of_nonneg_right (hS _).le
  · rw [arrivals_departure, departures_departure] at hempty
    rw [arrivals_departure, departures_departure, Pass.tail_t2, Pass.tail_gen]
    obtain ⟨ht2', hgen'⟩ := Pass.depart_last (P := queueSim simulationTime buf I S) (s := s)
      (by rw [hn']; omega)
    exact ⟨ht2', hgen'.trans hgen⟩
  · rw [arrivals_departure, Pass.tail_time, Pass.depart_time, ht2]
    exact harrived
  · rw [departures_departure, Pass.tail_time, Pass.depart_time, ht2]
  · rw [Pass.tail_time, Pass.depart_time, Pass.tail_t1, Pass.depart_t1]
    exact hle
  · rw [processed_departure]
    exact hs.segment.depart hI hS hs.counts hbefore
  · rw [processed_departure, arrivals_departure, departures_departure]
    exact hs.counts.depart

end Following

/-! ### What the loop has done -/

/-- The customers that are in the system after some iterations. -/
def inSystem (bs : List Branch) : ℕ := arrivals bs - departures bs

/-- What the loop has done after the iterations `bs`: it has processed an initial segment of the
events of the queue; `n`, `max_buf` and the clocks are those of the events; and it has been stopped
if the last event is the first that makes `n` exceed `buf`, an arrival. -/
structure Merged {T : Type*} [AddCommGroup T] [LinearOrder T] (I S : ℕ → T) (buf : ℕ)
    (bs : List Branch) (s : State T (ℕ × ℕ)) : Prop where
  segment : InitialSegment I S (processed bs)
  count : departures bs ≤ arrivals bs ∧ s.n = inSystem bs
  instant : s.tn = s.time ∧ ∀ e, (processed bs).getLast? = some e → s.time = e.instant I S
  maxBuf : (∀ cs, cs <+: bs → inSystem cs ≤ s.maxBuf) ∧
    ∃ cs, cs <+: bs ∧ s.maxBuf = inSystem cs
  stopped : (s.flag = true ↔ buf < inSystem bs) ∧
    (∀ cs, cs <+: bs → cs ≠ bs → inSystem cs ≤ buf) ∧
    (s.flag = true → bs.getLast? = some .arrival ∧ s.tn = arrival I (arrivals bs))

section Merged

variable {T : Type*} [AddCommGroup T] [LinearOrder T] [IsOrderedAddMonoid T] {I S : ℕ → T}
  {simulationTime : T} {buf : ℕ} {bs : List Branch} {s t : State T (ℕ × ℕ)} {b : Branch}

/-- The departure branch is taken only with somebody in the system. -/
def Occupied (s : State T (ℕ × ℕ)) (b : Branch) : Prop := b = .departure → 1 ≤ s.n

omit [IsOrderedAddMonoid T] in
theorem Merged.start : Merged I S buf [] ((queueSim simulationTime buf I S).start (0, 0)) where
  segment := .nil
  count := ⟨le_rfl, rfl⟩
  instant := ⟨rfl, fun e he => by cases he⟩
  maxBuf := ⟨fun cs hcs => by rw [List.prefix_nil.mp hcs]; exact le_rfl, [], List.prefix_rfl, rfl⟩
  stopped := ⟨by simp [Pass.start, inSystem], fun cs hcs hne => absurd (List.prefix_nil.mp hcs) hne,
    fun h => by cases h⟩

omit [IsOrderedAddMonoid T] in
/-- While the loop goes on, no more customers are in the system than the buffer holds. -/
theorem Merged.inSystem_le (hm : Merged I S buf bs s)
    (hrunning : (queueSim simulationTime buf I S).Running s) : inSystem bs ≤ buf := by
  by_contra hgt
  have htrue := hm.stopped.1.mpr (not_le.mp hgt)
  rw [hrunning.2] at htrue
  cases htrue

omit [IsOrderedAddMonoid T] in
/-- The maximum and the flag after an iteration. -/
theorem Merged.next (hm : Merged I S buf bs s)
    (hrunning : (queueSim simulationTime buf I S).Running s) {u : State T (ℕ × ℕ)}
    (hf : Following I S simulationTime (bs ++ [b]) ((queueSim simulationTime buf I S).tail u))
    (hflag : u.flag = s.flag) (hmax : u.maxBuf = s.maxBuf) (htn : u.tn = u.time)
    (hlast : ∀ e, (processed (bs ++ [b])).getLast? = some e → u.time = e.instant I S)
    (hdepart : b = .departure → inSystem (bs ++ [b]) ≤ inSystem bs)
    (harrive : b = .arrival → u.tn = arrival I (arrivals (bs ++ [b]))) :
    Merged I S buf (bs ++ [b]) ((queueSim simulationTime buf I S).tail u) := by
  have hn : u.n = inSystem (bs ++ [b]) := hf.n
  have hsmall := hm.inSystem_le hrunning
  have hflag' : ((queueSim simulationTime buf I S).tail u).flag = true ↔
      buf < inSystem (bs ++ [b]) := by
    rw [Pass.tail_flag u (hflag.trans hrunning.2), hn, decide_eq_true_iff]
    rfl
  refine ⟨hf.segment, ⟨hf.le, hf.n⟩, ⟨htn, hlast⟩, ⟨fun cs hcs => ?_, ?_⟩, hflag',
    fun cs hcs hne => ?_, fun htrue => ?_⟩
  · rw [Pass.tail_maxBuf, hmax, hn]
    rcases List.prefix_concat_iff.mp hcs with rfl | hcs
    · exact le_max_right _ _
    · exact (hm.maxBuf.1 cs hcs).trans (le_max_left _ _)
  · rw [Pass.tail_maxBuf, hmax, hn]
    obtain ⟨cs, hcs, heq⟩ := hm.maxBuf.2
    rcases max_choice s.maxBuf (inSystem (bs ++ [b])) with hleft | hright
    · exact ⟨cs, hcs.trans (List.prefix_append _ _), hleft.trans heq⟩
    · exact ⟨_, List.prefix_rfl, hright⟩
  · rcases List.prefix_concat_iff.mp hcs with rfl | hcs
    · exact absurd rfl hne
    · by_cases heq : cs = bs
      · exact heq ▸ hsmall
      · exact hm.stopped.2.1 cs hcs heq
  · cases b with
    | arrival => exact ⟨List.getLast?_concat, harrive rfl⟩
    | departure => exact absurd (hflag'.mp htrue) (not_lt.mpr ((hdepart rfl).trans hsmall))

/-- An iteration that meets the condition keeps the invariants, and time does not decrease. -/
theorem Merged.step (hI : ∀ k, 0 < I k) (hS : ∀ k, 0 < S k) (hbuf : buf < 2 ^ 31)
    (hs : Following I S simulationTime bs s ∧ Merged I S buf bs s) (hb : Occupied s b)
    (h : (queueSim simulationTime buf I S).loop.step s b = some t) :
    (Following I S simulationTime (bs ++ [b]) t ∧ Merged I S buf (bs ++ [b]) t) ∧
      s.time ≤ t.time := by
  obtain ⟨hf, hm⟩ := hs
  have hrunning := Pass.running_of_step h
  cases b with
  | arrival =>
    obtain ⟨-, hlt, rfl⟩ := Pass.step_arrival h
    have hsmall := hm.inSystem_le hrunning
    have hf' := hf.arrive hI hS buf (by rw [hm.count.2]; omega) hlt
    refine ⟨⟨hf', hm.next hrunning hf' (Pass.arrive_flag s) (Pass.arrive_maxBuf s) ?_ ?_ (by simp)
      fun _ => ?_⟩, ?_⟩
    · rw [Pass.arrive_tn, Pass.arrive_time]
    · rw [processed_arrival, List.getLast?_concat, Pass.arrive_time, hf.t1]
      rintro e he
      cases he
      rfl
    · rw [Pass.arrive_tn, hf.t1, arrivals_arrival]
    · rw [Pass.tail_time, Pass.arrive_time]
      exact hf.next
  | departure =>
    obtain ⟨-, hle, rfl⟩ := Pass.step_departure h
    have hn := hb rfl
    obtain ⟨ht2, -, htime⟩ := hf.busy (by rw [hf.n] at hn; omega)
    have hf' := hf.depart hI hS buf hn hle
    refine ⟨⟨hf', hm.next hrunning hf' (Pass.depart_flag s) (Pass.depart_maxBuf s) ?_ ?_
      (fun _ => ?_) (by simp)⟩, ?_⟩
    · rw [Pass.depart_tn, Pass.depart_time]
    · rw [processed_departure, List.getLast?_concat, Pass.depart_time, ht2]
      rintro e he
      cases he
      rfl
    · rw [inSystem, inSystem, arrivals_departure, departures_departure]
      omega
    · rw [Pass.tail_time, Pass.depart_time]
      exact htime

/-- **The simulator refines the recursion.** Up to the first departure with nobody in the system the
events that `queue_sim.c` processes are the arrivals and the departures of the customers in the
order of time, time does not decrease, and the loop is stopped by the first arrival that exceeds the
buffer. -/
theorem queueSim_merged (simulationTime : T) (hI : ∀ k, 0 < I k) (hS : ∀ k, 0 < S k)
    (hbuf : buf < 2 ^ 31)
    (hoccupied : (queueSim simulationTime buf I S).loop.Along Occupied
      ((queueSim simulationTime buf I S).start (0, 0)) bs)
    (hrun : (queueSim simulationTime buf I S).loop.run
      ((queueSim simulationTime buf I S).start (0, 0)) bs = some s) :
    Merged I S buf bs s ∧
      (queueSim simulationTime buf I S).loop.Along
        (fun s b => ∀ t, (queueSim simulationTime buf I S).loop.step s b = some t →
          s.time ≤ t.time)
        ((queueSim simulationTime buf I S).start (0, 0)) bs := by
  have hstart : Following I S simulationTime [] ((queueSim simulationTime buf I S).start (0, 0)) ∧
      Merged I S buf [] ((queueSim simulationTime buf I S).start (0, 0)) := ⟨.start, .start⟩
  refine ⟨(hoccupied.labels_invariant
    (J := fun past s => Following I S simulationTime past s ∧ Merged I S buf past s)
    (fun past s b t hs hb h => (Merged.step hI hS hbuf hs hb h).1) hstart hrun).2, ?_⟩
  refine Machine.Along.imp
    (I := fun s => ∃ past, Following I S simulationTime past s ∧ Merged I S buf past s)
    (fun s b t hs hb h => ?_) (fun s b t hs hb _ t' h => ?_) ⟨[], hstart⟩ hoccupied
  · obtain ⟨past, hs⟩ := hs
    exact ⟨past ++ [b], (Merged.step hI hS hbuf hs hb h).1⟩
  · obtain ⟨past, hs⟩ := hs
    exact (Merged.step hI hS hbuf hs hb h).2

end Merged

instance {T : Type*} (s : State T (ℕ × ℕ)) (b : Branch) : Decidable (Occupied s b) :=
  inferInstanceAs (Decidable (b = .departure → 1 ≤ s.n))

/-- The second customer arrives while the first one is served, and does not fit. -/
theorem queueSim_merged_full :
    ∃ s, (queueSim (10 : ℤ) 1 (fun _ => 2) fun _ => 3).loop.run
        ((queueSim (10 : ℤ) 1 (fun _ => 2) fun _ => 3).start (0, 0)) [.arrival, .arrival] = some s ∧
      s.flag = true ∧ Merged (fun _ => 2) (fun _ => 3) 1 [.arrival, .arrival] s := by
  exact ⟨_, rfl, rfl, (queueSim_merged (10 : ℤ) (fun _ => by decide) (fun _ => by decide)
    (by decide) (Machine.along_of_decide (by decide)) rfl).1⟩

/-- The second customer comes soon after the first one, and the next one much later. -/
def pairThenLate (k : ℕ) : ℤ := if k < 2 then 1 else 50

theorem pairThenLate_pos (k : ℕ) : 0 < pairThenLate k := by
  unfold pairThenLate
  split_ifs <;> decide

end Parikshan.Simulator
