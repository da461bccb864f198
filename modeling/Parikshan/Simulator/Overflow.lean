import Parikshan.Simulator.Merge

/-!
# Departures from an empty system

While nobody is in the system, `t2` is the simulation time. So if the last customer has left before
the simulation time is over and the next one arrives after it, the loop takes the departure branch
with nobody in the system: `n` wraps to the largest `unsigned int`, exceeds the buffer, and an
overflow is reported.

## Main definitions

* `Exact`: `n` counts the customers in the system, and the flag says that they exceeded the buffer.
* `Outlasts`: the arrivals go on until the simulation time is over, or the buffer overflows.

## Main results

* `queueSim_exact_iff`: the draws for which the simulator is exact.
* `queueSim_wraps`: draws for which it reports an overflow that has not happened.
-/

namespace Parikshan.Simulator

open Queueing

variable {T : Type*} [AddCommGroup T] [LinearOrder T] {I S : ℕ → T}
  {simulationTime : T} {buf : ℕ} {bs : List Branch} {s t : State T (ℕ × ℕ)} {b : Branch}

/-- In every state of the loop `n` is the number of arrivals minus the number of departures, the
departure branch is taken only with `n` at least `1`, and on exit the flag is set if and only if the
customers in the system have exceeded the buffer. -/
def Exact (simulationTime : T) (buf : ℕ) (I S : ℕ → T) : Prop :=
  ∀ bs s, (queueSim simulationTime buf I S).loop.run
      ((queueSim simulationTime buf I S).start (0, 0)) bs = some s →
    (s.n : ℤ) = arrivals bs - departures bs ∧
    (queueSim simulationTime buf I S).loop.Along Occupied
      ((queueSim simulationTime buf I S).start (0, 0)) bs ∧
    (¬ (queueSim simulationTime buf I S).Running s →
      (s.flag = true ↔ ∃ cs, cs <+: bs ∧ (buf : ℤ) < arrivals cs - departures cs))

/-- Customer `i` finds more customers in the system than the buffer holds with it. -/
def Overflows (I S : ℕ → T) (buf i : ℕ) : Prop :=
  buf < i ∧ arrival I i < departure I S (i - buf)

/-- If a customer leaves before the simulation time is over, the next one arrives before it is over,
too, unless the buffer has overflowed by then. -/
def Outlasts (simulationTime : T) (buf : ℕ) (I S : ℕ → T) : Prop :=
  ∀ k, 1 ≤ k → departure I S k < simulationTime → simulationTime ≤ arrival I (k + 1) →
    ∃ i ≤ k, Overflows I S buf i

variable [IsOrderedAddMonoid T]

/-! ### Overflows and the flag -/

/-- With more customers in the system than the buffer holds, the last one has found too many. -/
theorem Following.overflows (hf : Following I S simulationTime bs s) (hS : ∀ k, 0 < S k)
    (h : buf < inSystem bs) : Overflows I S buf (arrivals bs) := by
  unfold inSystem at h
  -- the departure of the customer in service has not been processed
  have hmem : Event.arrival (arrivals bs) ∈ processed bs :=
    (hf.counts.arrival _).mpr ⟨by omega, le_rfl⟩
  have hnot : Event.departure (departures bs + 1) ∉ processed bs := by
    rw [hf.counts.departure]
    omega
  have hlt : arrival I (arrivals bs) < departure I S (departures bs + 1) := by
    rcases hf.segment.closed _ hmem (.departure (departures bs + 1))
        (Nat.succ_pos _) hnot with hlt | ⟨-, j, k, heq, -⟩
    · exact hlt
    · cases heq
  refine ⟨by omega, hlt.trans_le ((departure_strictMono hS).monotone ?_)⟩
  omega

/-- While the loop goes on, no customer has found too many. -/
structure Fits (I S : ℕ → T) (simulationTime : T) (buf : ℕ) (bs : List Branch)
    (s : State T (ℕ × ℕ)) : Prop where
  following : Following I S simulationTime bs s
  merged : Merged I S buf bs s
  fits : s.flag = false → ∀ i ≤ arrivals bs, ¬ Overflows I S buf i

omit [IsOrderedAddMonoid T] in
theorem Fits.start : Fits I S simulationTime buf []
    ((queueSim simulationTime buf I S).start (0, 0)) := by
  refine ⟨.start, .start, fun _ i hi hover => ?_⟩
  rw [arrivals_nil] at hi
  exact absurd hover.1 (by omega)

theorem Fits.step (hs : Fits I S simulationTime buf bs s) (hI : ∀ k, 0 < I k) (hS : ∀ k, 0 < S k)
    (hbuf : buf < 2 ^ 31) (hb : Occupied s b)
    (h : (queueSim simulationTime buf I S).loop.step s b = some t) :
    Fits I S simulationTime buf (bs ++ [b]) t := by
  obtain ⟨⟨hf, hm⟩, -⟩ := Merged.step hI hS hbuf ⟨hs.following, hs.merged⟩ hb h
  have hflag := (Pass.running_of_step h).2
  refine ⟨hf, hm, fun hfits i hi hover => ?_⟩
  cases b with
  | departure =>
    rw [arrivals_departure] at hi
    exact hs.fits hflag i hi hover
  | arrival =>
    rw [arrivals_arrival] at hi
    by_cases hold : i ≤ arrivals bs
    · exact hs.fits hflag i hold hover
    · obtain rfl : i = arrivals bs + 1 := by omega
      have hle : inSystem (bs ++ [.arrival]) ≤ buf := by
        by_contra hgt
        have htrue := hm.stopped.1.mpr (not_le.mp hgt)
        rw [hfits] at htrue
        cases htrue
      rw [inSystem, arrivals_arrival, departures_arrival] at hle
      -- those who are counted out of the buffer have left by now
      have hgone : departure I S (arrivals bs + 1 - buf) ≤ departure I S (departures bs) :=
        (departure_strictMono hS).monotone (by omega)
      have htime := hs.following.left.trans hs.following.next
      rw [hs.following.t1] at htime
      exact absurd hover.2 (not_lt.mpr (hgone.trans htime))

omit [IsOrderedAddMonoid T] in
/-- With draws that outlast the simulation time the departure branch is taken with somebody in the
system. -/
theorem Fits.occupied (hs : Fits I S simulationTime buf bs s) (hT : 0 < simulationTime)
    (hout : Outlasts simulationTime buf I S)
    (h : (queueSim simulationTime buf I S).loop.step s b = some t) : Occupied s b := by
  rintro rfl
  obtain ⟨hrunning, hle, -⟩ := Pass.step_departure h
  have hf := hs.following
  by_contra hn
  have hempty : departures bs = arrivals bs := by
    have hcount := hf.n
    have hdle := hf.le
    omega
  have ht2 := (hf.empty hempty).1
  have hnext : simulationTime ≤ arrival I (arrivals bs + 1) := by rwa [← ht2, ← hf.t1]
  rcases Nat.eq_zero_or_pos (arrivals bs) with hzero | hpos
  · rw [hzero] at hnext
    exact absurd hnext (not_le.mpr hT)
  · have hleft : departure I S (arrivals bs) < simulationTime :=
      (hempty ▸ hf.left).trans_lt hrunning.1
    obtain ⟨i, hi, hover⟩ := hout _ hpos hleft hnext
    exact hs.fits hrunning.2 i hi hover

/-! ### The run that exhausts the customers -/

/-- The time of a state among the first `k` customers. -/
theorem Following.time_le (hf : Following I S simulationTime bs s) (hm : Merged I S buf bs s)
    (hI : ∀ k, 0 < I k) (hS : ∀ k, 0 < S k) {k : ℕ} (hk : 1 ≤ k) (ha : arrivals bs ≤ k) :
    s.time ≤ departure I S k := by
  cases hlast : (processed bs).getLast? with
  | none =>
    have hnil := List.getLast?_eq_none_iff.mp hlast
    have hzero : arrivals bs = 0 := by
      by_contra hne
      have hmem := (hf.counts.arrival 1).mpr ⟨le_rfl, Nat.one_le_iff_ne_zero.mpr hne⟩
      rw [hnil] at hmem
      cases hmem
    have hnext := hf.next
    rw [hf.t1, hzero] at hnext
    exact hnext.trans (departure_nonneg hS k)
  | some e =>
    have hmem := List.mem_of_getLast? hlast
    rw [hm.instant.2 e hlast]
    cases e with
    | arrival j =>
      have hj := ((hf.counts.arrival j).mp hmem).2
      exact (arrival_mono hI (hj.trans ha)).trans (arrival_lt_departure hS hk).le
    | departure j =>
      have hj := ((hf.counts.departure j).mp hmem).2
      exact (departure_strictMono hS).monotone (hj.trans (hf.le.trans ha))

/-- As long as the last of the first `k` customers leaves before the simulation time is over and
before the next one arrives, a branch that the loop takes belongs to one of them. -/
theorem Following.step_le {k : ℕ} (hf : Following I S simulationTime bs s) (hI : ∀ k, 0 < I k)
    (hS : ∀ k, 0 < S k) (hk : 1 ≤ k) (hleft : departure I S k < simulationTime)
    (hnext : simulationTime ≤ arrival I (k + 1)) (ha : arrivals bs ≤ k)
    (hcount : arrivals bs + departures bs < 2 * k)
    (hstep : (queueSim simulationTime buf I S).loop.step s b = some t) :
    Occupied s b ∧ arrivals (bs ++ [b]) ≤ k ∧
      arrivals (bs ++ [b]) + departures (bs ++ [b]) = arrivals bs + departures bs + 1 := by
  have hdle := hf.le
  cases b with
  | arrival =>
    rw [arrivals_arrival, departures_arrival]
    refine ⟨by simp [Occupied], ?_, by omega⟩
    by_contra hall
    obtain ⟨-, hlt, -⟩ := Pass.step_arrival hstep
    rw [hf.t1, (hf.busy (by omega)).1, show arrivals bs = k by omega] at hlt
    have hdep : departure I S (departures bs + 1) ≤ departure I S k :=
      (departure_strictMono hS).monotone (by omega)
    exact absurd (hlt.trans_le hdep) (not_lt.mpr (hleft.le.trans hnext))
  | departure =>
    rw [arrivals_departure, departures_departure]
    refine ⟨fun _ => ?_, ha, by omega⟩
    by_contra hn
    obtain ⟨-, hle, -⟩ := Pass.step_departure hstep
    have hsn := hf.n
    rw [hf.t1, (hf.empty (by omega)).1] at hle
    have harr : arrival I (arrivals bs + 1) ≤ arrival I k := arrival_mono hI (by omega)
    exact absurd (hle.trans harr) (not_le.mpr ((arrival_lt_departure hS hk).trans hleft))

/-- If no customer has found too many, the loop then processes the first `k` customers and nothing
else. -/
theorem exists_run {k m : ℕ} (hI : ∀ k, 0 < I k) (hS : ∀ k, 0 < S k) (hbuf : buf < 2 ^ 31)
    (hk : 1 ≤ k) (hleft : departure I S k < simulationTime)
    (hnext : simulationTime ≤ arrival I (k + 1)) (hfits : ∀ i ≤ k, ¬ Overflows I S buf i)
    (hm : m ≤ 2 * k) :
    ∃ bs s, (queueSim simulationTime buf I S).loop.run
        ((queueSim simulationTime buf I S).start (0, 0)) bs = some s ∧
      (queueSim simulationTime buf I S).Running s ∧ Fits I S simulationTime buf bs s ∧
      arrivals bs ≤ k ∧ arrivals bs + departures bs = m := by
  -- the loop does not stop among the first `k` customers
  have hgoes {bs : List Branch} {s : State T (ℕ × ℕ)} (hs : Fits I S simulationTime buf bs s)
      (ha : arrivals bs ≤ k) : (queueSim simulationTime buf I S).Running s := by
    refine ⟨(hs.following.time_le hs.merged hI hS hk ha).trans_lt hleft, ?_⟩
    by_contra hflag
    have hgt := hs.merged.stopped.1.mp (by simpa using hflag)
    exact hfits _ ha (hs.following.overflows hS hgt)
  induction m with
  | zero =>
    have hstart : Fits I S simulationTime buf []
        ((queueSim simulationTime buf I S).start (0, 0)) := .start
    exact ⟨[], _, rfl, hgoes hstart (Nat.zero_le k), hstart, Nat.zero_le k, rfl⟩
  | succ m ih =>
    obtain ⟨bs, s, hrun, hrunning, hs, ha, hcount⟩ := ih (by omega)
    obtain ⟨b, t, hstep⟩ := Pass.exists_step hrunning
    obtain ⟨hb, ha', hcount'⟩ :=
      hs.following.step_le hI hS hk hleft hnext ha (by omega) hstep
    have ht := hs.step hI hS hbuf hb hstep
    exact ⟨bs ++ [b], t, Machine.run_concat hrun hstep, hgoes ht ha', ht, ha',
      hcount'.trans (congrArg (· + 1) hcount)⟩

/-! ### When the simulator is exact -/

/-- Draws that outlast the simulation time are enough. -/
theorem exact_of_outlasts (hI : ∀ k, 0 < I k) (hS : ∀ k, 0 < S k) (hT : 0 < simulationTime)
    (hbuf : buf < 2 ^ 31) (hout : Outlasts simulationTime buf I S) :
    Exact simulationTime buf I S := by
  intro bs s hrun
  have hall (cs : List Branch) :
      (queueSim simulationTime buf I S).loop.Along Occupied
        ((queueSim simulationTime buf I S).start (0, 0)) cs := by
    refine Machine.Along.imp (I := fun s => ∃ past, Fits I S simulationTime buf past s)
      (H := fun _ _ => True) (fun s b t hs _ h => ?_) (fun s b t hs _ h => ?_) ⟨[], .start⟩
      (Machine.along_true _ _)
    · obtain ⟨past, hs⟩ := hs
      exact ⟨past ++ [b], hs.step hI hS hbuf (hs.occupied hT hout h) h⟩
    · obtain ⟨past, hs⟩ := hs
      exact hs.occupied hT hout h
  have hm := (queueSim_merged simulationTime hI hS hbuf (hall bs) hrun).1
  refine ⟨?_, hall bs, fun _ => ⟨fun htrue => ⟨bs, List.prefix_rfl, ?_⟩, fun hover => ?_⟩⟩
  · have hle := hm.count.1
    rw [hm.count.2, inSystem]
    omega
  · have hgt := hm.stopped.1.mp htrue
    rw [inSystem] at hgt
    omega
  · obtain ⟨cs, hcs, hgt⟩ := hover
    have hgt' : buf < inSystem cs := by
      rw [inSystem]
      omega
    by_cases heq : cs = bs
    · exact hm.stopped.1.mpr (heq ▸ hgt')
    · exact absurd (hm.stopped.2.1 cs hcs heq) (not_le.mpr hgt')

/-- **When `n` counts.** The simulator is exact if and only if, whenever the system becomes empty
before the simulation time is over, another customer arrives before it is over, or the buffer has
overflowed. -/
theorem queueSim_exact_iff (hI : ∀ k, 0 < I k) (hS : ∀ k, 0 < S k) (hT : 0 < simulationTime)
    (hbuf : buf < 2 ^ 31) : Exact simulationTime buf I S ↔ Outlasts simulationTime buf I S := by
  refine ⟨fun hexact k hk hleft hnext => ?_, exact_of_outlasts hI hS hT hbuf⟩
  by_contra hnot
  have hfits : ∀ i ≤ k, ¬ Overflows I S buf i := fun i hi hover => hnot ⟨i, hi, hover⟩
  obtain ⟨bs, s, hrun, hrunning, hs, ha, hcount⟩ :=
    exists_run hI hS hbuf hk hleft hnext hfits le_rfl
  have hf := hs.following
  have hdle := hf.le
  -- all have left, and the next iteration takes the departure branch
  have hstep : (queueSim simulationTime buf I S).loop.step s .departure =
      some ((queueSim simulationTime buf I S).tail
        ((queueSim simulationTime buf I S).depart s)) := by
    refine if_pos ⟨hrunning, not_lt.mpr ?_⟩
    rw [(hf.empty (by omega)).1, hf.t1, show arrivals bs = k by omega]
    exact hnext
  obtain ⟨-, hoccupied, -⟩ := hexact (bs ++ [.departure]) _ (Machine.run_concat hrun hstep)
  have hpos := ((hoccupied.of_append hrun) _ hstep).1 rfl
  have hsn := hf.n
  omega

/-- With room for one customer the second one makes the buffer overflow, and the simulator stops.
With room for two it goes on, and is not exact. -/
theorem queueSim_exact_iff_pairThenLate :
    Exact (10 : ℤ) 1 pairThenLate (fun _ => 3) ∧ ¬ Exact (10 : ℤ) 2 pairThenLate fun _ => 3 := by
  have hS (_ : ℕ) : (0 : ℤ) < 3 := by decide
  refine ⟨(queueSim_exact_iff pairThenLate_pos hS (by decide) (by decide)).mpr
    fun k hk hleft hnext => ?_, fun hexact => ?_⟩
  · -- nobody comes in time after the second customer
    obtain rfl | rfl | hmore : k = 1 ∨ k = 2 ∨ 3 ≤ k := by omega
    · exact absurd hnext (by decide)
    · exact ⟨2, le_rfl, by decide, by decide⟩
    · have hlate := ((departure_strictMono (I := pairThenLate) hS).monotone hmore).trans_lt hleft
      exact absurd hlate (by decide)
  · obtain ⟨i, hi, hover, -⟩ := (queueSim_exact_iff pairThenLate_pos hS (by decide) (by decide)).mp
      hexact 2 (by decide) (by decide) (by decide)
    omega

/-- One customer is served, and the next one comes after the simulation time. An overflow is
reported. -/
theorem queueSim_wraps :
    ∃ s, (queueSim (10 : ℤ) 5 (fun _ => 50) fun _ => 1).loop.run
        ((queueSim (10 : ℤ) 5 (fun _ => 50) fun _ => 1).start (0, 0))
          [.arrival, .departure, .departure] = some s ∧
      s.n = 4294967295 ∧ s.flag = true ∧ ¬ Exact (10 : ℤ) 5 (fun _ => 50) fun _ => 1 := by
  refine ⟨_, rfl, rfl, rfl, fun hexact => ?_⟩
  have hcount := (hexact [.arrival, .departure, .departure] _ rfl).1
  exact absurd hcount (by decide)

end Parikshan.Simulator
