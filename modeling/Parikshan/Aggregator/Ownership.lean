import Parikshan.Aggregator.Phases
import Parikshan.Machine.Tickets

/-!
# Which connection owns which pipe

A production handler reads the first counter before it takes the semaphore, and a clone handler
compares the counters before it does. The semaphore makes the increments themselves safe, so in
every run each counter equals the number of stores on it; but two handlers that read the counter
before either has stored take the same pipe. This file gives the exact conditions on the steps of
a run under which no pipe is shared.

## Main definitions

* `Incrementing`: the invariant of all runs.
* `ReadsAlone`, `PassesAlone`: the conditions on the steps of the two handlers.
* `ExclusivePipes`, `OrderGuard`: the properties of a state.

## Main results

* `exclusivePipes_iff`: no two production connections share a pipe and none is left without a
  producer, if and only if no handler reads the counter between the read and the store of another.
* `orderGuard_iff`: the order check of the clones holds up, if and only if no clone handler passes
  it on a stale counter or while another one has passed it and has not stored yet.
-/

namespace Parikshan.Aggregator

open Posix

/-! ### Two sequences of takers -/

/-- The connections that take numbers from a counter. -/
def Counter.conn : Counter → ℕ → Conn
  | .first => .prod
  | .second => .clone

/-- The pending indices of the takers from a counter. -/
def pendings (x : Counter) (φ : Conn → Phase) (i : ℕ) : Option ℕ := (φ (x.conn i)).pending

/-- The settled indices of the takers from a counter. -/
def settleds (x : Counter) (φ : Conn → Phase) (i : ℕ) : Option ℕ := (φ (x.conn i)).settled

/-- The increments in progress. -/
def incs (φ : Conn → Phase) (k : Conn) : Option (Counter × Inc) := (φ k).inc k.counter

section Update

variable {x y : Counter} {φ : Conn → Phase} {i : ℕ} {ψ : Phase}

theorem Counter.conn_injective (x : Counter) : Function.Injective x.conn := by
  cases x
  · exact fun _ _ h => Conn.prod.inj h
  · exact fun _ _ h => Conn.clone.inj h

theorem Counter.conn_ne (h : y ≠ x) (i j : ℕ) : y.conn j ≠ x.conn i := by
  cases x <;> cases y <;> first | exact absurd rfl h | simp [conn]

@[simp] theorem Counter.conn_counter (x : Counter) (i : ℕ) : (x.conn i).counter = x := by
  cases x <;> rfl

/-- Every connection takes from one of the counters. -/
theorem Conn.exists_conn (k : Conn) : ∃ i, k = k.counter.conn i := by
  cases k with
  | prod i => exact ⟨i, rfl⟩
  | clone j => exact ⟨j, rfl⟩

theorem pendings_update :
    pendings x (Function.update φ (x.conn i) ψ) = Function.update (pendings x φ) i ψ.pending := by
  funext j
  simp only [pendings, Function.update_apply, x.conn_injective.eq_iff]
  split_ifs <;> rfl

theorem settleds_update :
    settleds x (Function.update φ (x.conn i) ψ) = Function.update (settleds x φ) i ψ.settled := by
  funext j
  simp only [settleds, Function.update_apply, x.conn_injective.eq_iff]
  split_ifs <;> rfl

theorem pendings_update_of_ne (h : y ≠ x) :
    pendings y (Function.update φ (x.conn i) ψ) = pendings y φ := by
  funext j
  rw [pendings, Function.update_of_ne (Counter.conn_ne h i j), pendings]

theorem settleds_update_of_ne (h : y ≠ x) :
    settleds y (Function.update φ (x.conn i) ψ) = settleds y φ := by
  funext j
  rw [settleds, Function.update_of_ne (Counter.conn_ne h i j), settleds]

/-- A step within a phase that keeps its index. -/
theorem settleds_update_same (h : ψ.settled = (φ (x.conn i)).settled) :
    settleds y (Function.update φ (x.conn i) ψ) = settleds y φ := by
  by_cases hyx : y = x
  · subst hyx
    rw [settleds_update, h, ← settleds, Function.update_eq_self]
  · exact settleds_update_of_ne hyx

end Update

/-! ### All runs -/

/-- The increments in progress are coherent, and each counter is the number of its stores. -/
structure Incrementing (m : Shm) (φ : Conn → Phase) : Prop where
  coherent : Coherent m (incs φ)
  counted : ∀ x, Counted (m.get x) (settleds x φ)

/-- The handler is about to take the index `c`: production as it reads the counter, a clone as it
passes the check. -/
inductive Phase.Takes (m : Shm) : Conn → Phase → ℕ → Prop
  | prod (i : ℕ) : Takes m (.prod i) .idle m.shm
  | clone (j c2 c1 : ℕ) (h : c2 < c1) : Takes m (.clone j) (.checking c2 c1) c2

/-- What a step of the protocol does to the indices: a handler takes one, or settles, or neither. -/
inductive Phase.Moves (m : Shm) (k : Conn) : Phase → Shm → Phase → Prop
  | take {φ : Phase} {c : ℕ} (h : Phase.Takes m k φ c) : Moves m k φ m (.counting c .p)
  | settle {φ ψ : Phase} {m' : Shm} {c : ℕ} (hP : φ.pending = some c) (hS : φ.settled = none)
      (hP' : ψ.pending = none) (hS' : ψ.settled = some c)
      (hm : m'.get k.counter = m.get k.counter + 1)
      (hm' : ∀ y ≠ k.counter, m'.get y = m.get y) : Moves m k φ m' ψ
  | stay {φ ψ : Phase} {m' : Shm} (hP : ψ.pending = φ.pending) (hS : ψ.settled = φ.settled)
      (hm : ∀ y, m'.get y = m.get y) : Moves m k φ m' ψ

theorem Phase.Takes.not_settled {m : Shm} {k : Conn} {φ : Phase} {c : ℕ}
    (h : Phase.Takes m k φ c) : φ.settled = none := by
  cases h <;> rfl

namespace Incrementing

variable {m m' : Shm} {φ : Conn → Phase} {ψ : Phase} {k : Conn}

theorem createShmSeg : Incrementing .createShmSeg fun _ => .idle where
  coherent := by
    refine ⟨?_, fun k x val h => by simp [incs, Phase.inc] at h⟩
    have hempty : inside (incs fun _ => .idle) = ∅ := by
      ext k
      simp [inside, incs, Phase.inc]
    rw [hempty]
    exact .empty
  counted x := by cases x <;> exact .zero

theorem moves (h : Incrementing m φ) (hstep : Phase.Step m k (φ k) m' ψ) :
    Phase.Moves m k (φ k) m' ψ := by
  generalize hφ : φ k = φ₀ at hstep
  cases hstep with
  | take i => exact .take (.prod i)
  | read j => exact .stay rfl rfl fun _ => rfl
  | compare j c2 => exact .stay rfl rfl fun _ => rfl
  | reject j c2 c1 hc => exact .stay rfl rfl fun _ => rfl
  | pass j c2 c1 hc => exact .take (.clone j c2 c1 hc)
  | @increment _ c i _ r hr =>
    have hk : incs φ k = some (k.counter, i) := by rw [incs, hφ]; rfl
    have hget := h.coherent.increment_get hk hr
    rcases Shm.increment_cases hr with ⟨n, rfl, -, -, rfl⟩ | ⟨rfl, -, rfl⟩ | ⟨val, rfl, -, rfl⟩ |
      ⟨rfl, -, rfl⟩
    · exact .stay rfl rfl fun y => by simpa using hget y
    · exact .stay rfl rfl fun y => by simpa using hget y
    · refine .settle rfl rfl rfl rfl (by simpa using hget k.counter) fun y hy => ?_
      simpa [hy] using hget y
    · exact .stay rfl rfl fun y => by simpa using hget y

/-- **Counters lose no update**: every step of the protocol keeps the invariant. -/
theorem step (h : Incrementing m φ) (hstep : Phase.Step m k (φ k) m' ψ) :
    Incrementing m' (Function.update φ k ψ) := by
  have hincs : incs (Function.update φ k ψ) =
      Function.update (incs φ) k (ψ.inc k.counter) := by
    funext k'
    simp only [incs, Function.update_apply]
    split_ifs with hk
    · rw [hk]
    · rfl
  have hmoves := h.moves hstep
  refine ⟨?_, fun x => ?_⟩
  · rw [hincs]
    generalize hφ : φ k = φ₀ at hstep
    have hout (hφ' : ∀ i, φ₀.inc k.counter = some (k.counter, i) → ¬ i.Inside) :
        k ∉ inside (incs φ) := by
      rintro ⟨x, i, hi, hin⟩
      rw [incs, hφ] at hi
      cases φ₀ with
      | counting c j =>
        cases hi
        exact hφ' i rfl hin
      | _ => cases hi
    cases hstep with
    | take i =>
      exact h.coherent.update (hout (by simp [Phase.inc])) (by simp [Phase.inc, Inc.Inside])
    | read j => exact h.coherent.update (hout (by simp [Phase.inc])) (by simp [Phase.inc])
    | compare j c2 => exact h.coherent.update (hout (by simp [Phase.inc])) (by simp [Phase.inc])
    | reject j c2 c1 hc =>
      exact h.coherent.update (hout (by simp [Phase.inc])) (by simp [Phase.inc])
    | pass j c2 c1 hc =>
      exact h.coherent.update (hout (by simp [Phase.inc])) (by simp [Phase.inc, Inc.Inside])
    | @increment _ c i _ r hr =>
      have hk : incs φ k = some (k.counter, i) := by rw [incs, hφ]; rfl
      have hnext : (Phase.afterInc c r).inc k.counter = r.map (k.counter, ·) := by
        cases r <;> rfl
      rw [hnext]
      exact h.coherent.increment hk hr
  · obtain ⟨i, hi⟩ := k.exists_conn
    generalize k.counter = z at hi hmoves
    subst hi
    generalize hφ : φ (z.conn i) = φ₀ at hmoves
    cases hmoves with
    | take htakes =>
      rw [settleds_update_same (by rw [hφ, htakes.not_settled]; rfl)]
      exact h.counted x
    | settle hP hS hP' hS' hm hm' =>
      rw [Counter.conn_counter] at hm hm'
      by_cases hx : x = z
      · subst hx
        rw [settleds_update, hS', hm]
        exact (h.counted x).settle (by rw [settleds, hφ, hS])
      · rw [settleds_update_of_ne hx, hm' x hx]
        exact h.counted x
    | stay hP hS hm =>
      rw [settleds_update_same (by rw [hS, hφ]), hm]
      exact h.counted x

end Incrementing

/-- The takers from a counter are ticketed as long as each takes the value of the counter while no
other is pending. -/
theorem Phase.Moves.ticketed {m m' : Shm} {φ : Conn → Phase} {ψ : Phase} {k : Conn} {x : Counter}
    (h : Phase.Moves m k (φ k) m' ψ) (ht : Ticketed (m.get x) (pendings x φ) (settleds x φ))
    (htake : ∀ c, Phase.Takes m k (φ k) c → k.counter = x →
      c = m.get x ∧ ∀ j, pendings x φ j = none) :
    Ticketed (m'.get x) (pendings x (Function.update φ k ψ))
      (settleds x (Function.update φ k ψ)) := by
  obtain ⟨i, hi⟩ := k.exists_conn
  have hcounter : ∀ y, y ≠ k.counter → pendings y (Function.update φ k ψ) = pendings y φ ∧
      settleds y (Function.update φ k ψ) = settleds y φ := by
    intro y hy
    rw [hi]
    exact ⟨pendings_update_of_ne hy, settleds_update_of_ne hy⟩
  generalize k.counter = z at hi htake hcounter h
  subst hi
  generalize hφ : φ (z.conn i) = φ₀ at h htake
  by_cases hzx : x = z
  · subst hzx
    rw [pendings_update, settleds_update]
    cases h with
    | @take c htakes =>
      obtain ⟨rfl, hfree⟩ := htake _ htakes rfl
      have hsame : Function.update (settleds x φ) i none = settleds x φ :=
        Function.update_eq_self_iff.mpr (by rw [settleds, hφ, htakes.not_settled])
      exact hsame.symm ▸ ht.take hfree
    | settle hP hS hP' hS' hm hm' =>
      rw [Counter.conn_counter] at hm
      rw [hP', hS', hm]
      exact ht.settle (by rw [pendings, hφ, hP]) (by rw [settleds, hφ, hS])
    | stay hP hS hm =>
      have hP' : Function.update (pendings x φ) i ψ.pending = pendings x φ :=
        Function.update_eq_self_iff.mpr (by rw [pendings, hφ, hP])
      have hS' : Function.update (settleds x φ) i ψ.settled = settleds x φ :=
        Function.update_eq_self_iff.mpr (by rw [settleds, hφ, hS])
      rw [hP', hS', hm]
      exact ht
  · rw [(hcounter x hzx).1, (hcounter x hzx).2]
    cases h with
    | take htakes => exact ht
    | settle hP hS hP' hS' hm hm' =>
      rw [Counter.conn_counter] at hm'
      exact hm' x hzx ▸ ht
    | stay hP hS hm => exact hm x ▸ ht

/-! ### Production -/

/-- Every number below the first counter belongs to exactly one production connection, and so does
the one that a pending handler holds. -/
structure Owned (m : Shm) (φ : Conn → Phase) : Prop where
  incrementing : Incrementing m φ
  prod : Ticketed m.shm (pendings .first φ) (settleds .first φ)

/-- A production handler reads the counter only while no other one is between its read and its
store. -/
def ReadsAlone (s : State) : Act → Prop
  | .count (.prod i) => s.phase (.prod i) = .idle → ∀ j, (s.phase (.prod j)).pending = none
  | _ => True

/-- No two production connections have the same index, and no index below the counter is without a
production connection. -/
def ExclusivePipes (s : State) : Prop :=
  (∀ i j c, s.index (.prod i) = some c → s.index (.prod j) = some c → i = j) ∧
    ∀ c < s.shm.shm, ∃ i, s.index (.prod i) = some c

section Production

variable {cfg : Config} {s t : State} {a : Act}

/-- A step that meets the condition keeps the ownership of the production pipes. -/
theorem Owned.step (hs : Vacant s) (ho : Owned s.shm s.phase) (ha : ReadsAlone s a)
    (h : (aggregator cfg).step s a = some t) : Owned t.shm t.phase := by
  rcases step_phase hs h with ⟨k, ψ, rfl, hstep, hphase⟩ | ⟨-, hshm, hphase⟩
  · rw [hphase]
    refine ⟨ho.incrementing.step hstep, ?_⟩
    refine (ho.incrementing.moves hstep).ticketed (x := .first) ho.prod fun c htakes hk => ?_
    generalize hφ : s.phase k = φ₀ at htakes
    cases htakes with
    | prod i => exact ⟨rfl, ha hφ⟩
    | clone j c2 c1 hc => cases hk
  · rw [hshm, hphase]
    exact ho

theorem Owned.listening (cap : PipeId → ℕ) : Owned (listening cap).shm (listening cap).phase :=
  ⟨.createShmSeg, .zero⟩

theorem Owned.exclusivePipes (ho : Owned s.shm s.phase) : ExclusivePipes s := by
  refine ⟨fun i j c hi hj => ?_, fun c hc => ?_⟩
  · refine ho.prod.injective (H := fun i => s.index (.prod i)) (fun i c hi => ?_) hi hj
    exact Phase.index_eq_some.mp (s.index_eq _ ▸ hi)
  · obtain ⟨i, hi⟩ := ho.prod.settled_surj c hc
    exact ⟨i, by rw [s.index_eq]; exact Phase.index_eq_some.mpr (Or.inr hi)⟩

/-- A handler that reads the counter between the read and the store of another one takes the same
index. -/
theorem Owned.not_exclusivePipes (hs : Vacant s) (ho : Owned s.shm s.phase)
    (ha : ¬ ReadsAlone s a) (h : (aggregator cfg).step s a = some t) : ¬ ExclusivePipes t := by
  rintro ⟨hinj, -⟩
  unfold ReadsAlone at ha
  split at ha
  · next i =>
    rw [Classical.not_imp, not_forall] at ha
    obtain ⟨hidle, j, hj⟩ := ha
    obtain ⟨c, hc⟩ := Option.ne_none_iff_exists'.mp hj
    have hji : j ≠ i := by
      rintro rfl
      rw [hidle] at hj
      exact hj rfl
    rcases step_phase hs h with ⟨k, ψ, hk, hstep, hphase⟩ | ⟨hne, -⟩
    · cases hk
      rw [hidle] at hstep
      generalize t.shm = m' at hstep
      cases hstep
      have hi : t.index (.prod i) = some s.shm.shm := by
        rw [t.index_eq, hphase, Function.update_self]
        rfl
      have hj' : t.index (.prod j) = some s.shm.shm := by
        rw [t.index_eq, hphase, Function.update_of_ne (by simpa using hji),
          ← ho.prod.pending_eq j c hc]
        exact Phase.index_eq_some.mpr (Or.inl hc)
      exact hji (hinj j i _ hj' hi)
    · exact hne _ rfl
  · exact ha trivial

end Production

/-- **Exclusive ownership of the production pipes.** Along a run of the aggregator, with any
number of connections handled in any interleaving, no two production connections ever have the
same index and no index below the counter is ever left without a producer, if and only if no
production handler reads the counter between the read and the store of another one. -/
theorem exclusivePipes_iff (cfg : Config) (cap : PipeId → ℕ) (as : List Act) :
    (aggregator cfg).Along ReadsAlone (listening cap) as ↔
      (aggregator cfg).Throughout ExclusivePipes (listening cap) as := by
  refine Machine.along_iff_throughout (H := fun _ _ => True)
    (I := fun s => Vacant s ∧ Owned s.shm s.phase) ?_ ?_ ?_
    ⟨.listening cap, .listening cap⟩ (Machine.along_true _ _)
  · exact fun s a t hs _ ha h => ⟨hs.1.step h, hs.2.step hs.1 ha h⟩
  · exact fun s hs => hs.2.exclusivePipes
  · exact fun s a t hs _ ha h => hs.2.not_exclusivePipes hs.1 ha h

/-- The addresses of a production and a clone container. -/
def twoHosts : Config := { remoteHost := "10.0.0.1", duplicateHost := "10.0.0.2" }

/-- Two handlers read the first counter before either of them has incremented it. -/
def bothRead : List Act :=
  [.accept "10.0.0.1", .accept "10.0.0.1", .connect 0 true, .connect 1 true, .count (.prod 0),
    .count (.prod 1)]

theorem exclusivePipes_fails : ¬ ∀ (cfg : Config) (cap : PipeId → ℕ) (as : List Act) (s : State),
    (aggregator cfg).run (listening cap) as = some s → ExclusivePipes s := by
  intro hall
  obtain ⟨s, hs⟩ := Option.isSome_iff_exists.mp (by decide :
    ((aggregator twoHosts).run (listening fun _ => 4096) bothRead).isSome)
  have hindex : ((aggregator twoHosts).run (listening fun _ => 4096) bothRead).map
      (fun s => (s.index (.prod 0), s.index (.prod 1))) = some (some 0, some 0) := by decide
  rw [hs, Option.map_some, Option.some.injEq, Prod.mk.injEq] at hindex
  have h01 := (hall twoHosts _ bothRead s hs).1 0 1 0 hindex.1 hindex.2
  cases h01

/-! ### Clones -/

/-- The clones are behind production: what their handlers have read of the counters is not ahead
of them, and every index below the second counter belongs to exactly one clone connection. -/
structure Ordered (m : Shm) (φ : Conn → Phase) : Prop extends Owned m φ where
  clone : Ticketed m.shm2 (pendings .second φ) (settleds .second φ)
  le : m.shm2 ≤ m.shm
  read : ∀ j c2, φ (.clone j) = .reading c2 → c2 ≤ m.shm2
  checked : ∀ j c2 c1, φ (.clone j) = .checking c2 c1 → c2 ≤ m.shm2 ∧ c1 ≤ m.shm
  behind : ∀ j c, (φ (.clone j)).pending = some c → c < m.shm

/-- A clone handler passes the check only while the second counter is still the one it has read
and no other clone handler is between the check and its store. -/
def PassesAlone (s : State) : Act → Prop
  | .count (.clone j) => ∀ c2 c1, s.phase (.clone j) = .checking c2 c1 → c2 < c1 →
      s.shm.shm2 = c2 ∧ ∀ j', (s.phase (.clone j')).pending = none
  | _ => True

/-- The second counter does not exceed the first, every clone that has passed the check goes by an
index that belongs to a production connection, and no two of them go by the same. -/
def OrderGuard (s : State) : Prop :=
  s.shm.shm2 ≤ s.shm.shm ∧
    (∀ j c, s.index (.clone j) = some c → ∃ i, s.index (.prod i) = some c) ∧
    ∀ j j' c, s.index (.clone j) = some c → s.index (.clone j') = some c → j = j'

namespace Ordered

variable {cfg : Config} {s t : State} {a : Act} {m m' : Shm} {φ : Conn → Phase} {ψ : Phase}
  {k : Conn}

theorem listening (cap : PipeId → ℕ) : Ordered (listening cap).shm (listening cap).phase where
  toOwned := .listening cap
  clone := .zero
  le := le_rfl
  read _ _ h := by cases h
  checked _ _ _ h := by cases h
  behind _ _ h := by cases h

/-- The counters do not decrease. -/
theorem le_get (h : Incrementing m φ) (hstep : Phase.Step m k (φ k) m' ψ) (x : Counter) :
    m.get x ≤ m'.get x := by
  cases h.moves hstep with
  | take => exact le_rfl
  | settle hP hS hP' hS' hm hm' =>
    by_cases hx : x = k.counter
    · rw [hx, hm]
      exact Nat.le_succ _
    · exact (hm' x hx).ge
  | stay hP hS hm => exact (hm x).ge

/-- A step of the protocol that meets both conditions keeps the order of the counters. -/
theorem step_protocol (h : Ordered m φ) (hstep : Phase.Step m k (φ k) m' ψ)
    (howned : Owned m' (Function.update φ k ψ))
    (hpass : ∀ j c2 c1, k = .clone j → φ k = .checking c2 c1 → c2 < c1 →
      m.shm2 = c2 ∧ ∀ j', (φ (.clone j')).pending = none) :
    Ordered m' (Function.update φ k ψ) := by
  have hmoves := h.incrementing.moves hstep
  have hle1 : m.shm ≤ m'.shm := le_get h.incrementing hstep .first
  have hle2 : m.shm2 ≤ m'.shm2 := le_get h.incrementing hstep .second
  have hupdate {P : Phase → Prop} {j : ℕ} (hP : P (Function.update φ k ψ (.clone j))) :
      .clone j = k ∧ P ψ ∨ P (φ (.clone j)) := by
    rw [Function.update_apply] at hP
    split_ifs at hP with hjk
    · exact Or.inl ⟨hjk, hP⟩
    · exact Or.inr hP
  refine { toOwned := howned, clone := ?_, le := ?_, read := ?_, checked := ?_, behind := ?_ }
  · refine hmoves.ticketed (x := .second) h.clone fun c htakes hk => ?_
    generalize hφ : φ k = φ₀ at htakes
    cases htakes with
    | prod i => cases hk
    | clone j _ c1 hc =>
      obtain ⟨hshm, hfree⟩ := hpass j c c1 rfl hφ hc
      exact ⟨hshm.symm, hfree⟩
  · generalize hφ : φ k = φ₀ at hmoves
    cases hmoves with
    | take => exact h.le
    | stay hP hS hm => exact (hm .second).le.trans (h.le.trans (hm .first).ge)
    | @settle _ _ c hP hS hP' hS' hm hm' =>
      cases k with
      | prod i => exact (hm' .second (by simp [Conn.counter])).le.trans (h.le.trans hle1)
      | clone j =>
        have hc := h.clone.pending_eq j c (by rw [pendings]; exact hφ ▸ hP)
        have hlt := h.behind j c (by rw [hφ, hP])
        have hshm2 : m'.shm2 = m.shm2 + 1 := hm
        omega
  · intro j c2 hj
    rcases hupdate (P := fun φ => φ = .reading c2) hj with ⟨rfl, hψ⟩ | hj
    · generalize φ (.clone j) = φ₀ at hstep
      cases hstep with
      | read =>
        cases hψ
        exact le_rfl
      | @increment _ _ _ _ r => cases r <;> cases hψ
      | _ => cases hψ
    · exact (h.read j c2 hj).trans hle2
  · intro j c2 c1 hj
    rcases hupdate (P := fun φ => φ = .checking c2 c1) hj with ⟨rfl, hψ⟩ | hj
    · generalize hφ : φ (.clone j) = φ₀ at hstep
      cases hstep with
      | compare =>
        cases hψ
        exact ⟨h.read j _ hφ, le_rfl⟩
      | @increment _ _ _ _ r => cases r <;> cases hψ
      | _ => cases hψ
    · exact ⟨(h.checked j c2 c1 hj).1.trans hle2, (h.checked j c2 c1 hj).2.trans hle1⟩
  · intro j c hj
    rcases hupdate (P := fun φ => φ.pending = some c) hj with ⟨rfl, hψ⟩ | hj
    · generalize hφ : φ (.clone j) = φ₀ at hmoves
      cases hmoves with
      | take htakes =>
        cases htakes with
        | clone _ _ c1 hc =>
          cases hψ
          exact hc.trans_le (h.checked j _ c1 hφ).2
      | settle hP hS hP' => simp [hP'] at hψ
      | stay hP =>
        rw [hP, ← hφ] at hψ
        exact (h.behind j c hψ).trans_le hle1
    · exact (h.behind j c hj).trans_le hle1

theorem step (hs : Vacant s) (ho : Ordered s.shm s.phase) (hread : ReadsAlone s a)
    (hpass : PassesAlone s a) (h : (aggregator cfg).step s a = some t) :
    Ordered t.shm t.phase := by
  have howned := ho.toOwned.step hs hread h
  rcases step_phase hs h with ⟨k, ψ, rfl, hstep, hphase⟩ | ⟨-, hshm, hphase⟩
  · rw [hphase] at howned ⊢
    refine ho.step_protocol hstep howned fun j c2 c1 hk hφ hc => ?_
    subst hk
    exact hpass c2 c1 hφ hc
  · rw [hshm, hphase]
    exact ho

theorem orderGuard (ho : Ordered s.shm s.phase) : OrderGuard s := by
  refine ⟨ho.le, fun j c hj => ?_, fun j j' c hj hj' => ?_⟩
  · have hlt : c < s.shm.shm := by
      rcases Phase.index_eq_some.mp (s.index_eq _ ▸ hj) with hP | hS
      · exact ho.behind j c hP
      · exact (ho.clone.settled_lt j c hS).trans_le ho.le
    exact ho.toOwned.exclusivePipes.2 c hlt
  · refine ho.clone.injective (H := fun j => s.index (.clone j)) (fun j c hj => ?_) hj hj'
    exact Phase.index_eq_some.mp (s.index_eq _ ▸ hj)

/-- A handler that passes the check on a stale counter, or while another clone handler has passed
it and not stored, takes an index that a clone connection already goes by. -/
theorem not_orderGuard (hs : Vacant s) (ho : Ordered s.shm s.phase) (ha : ¬ PassesAlone s a)
    (h : (aggregator cfg).step s a = some t) : ¬ OrderGuard t := by
  rintro ⟨-, -, hinj⟩
  unfold PassesAlone at ha
  split at ha
  · next j =>
    simp only [not_forall, not_and_or] at ha
    obtain ⟨c2, c1, hφ, hc, hbad⟩ := ha
    have hnone : settleds .second s.phase j = none := by
      simp [settleds, Counter.conn, hφ, Phase.settled]
    have hbad' : c2 ≠ s.shm.shm2 ∨ ∃ j', j' ≠ j ∧ pendings .second s.phase j' ≠ none := by
      refine hbad.imp (fun h => Ne.symm h) fun hfree => hfree.imp fun j' hj' => ⟨?_, hj'⟩
      rintro rfl
      exact hj' (by rw [pendings, Counter.conn, hφ]; rfl)
    obtain ⟨j', hj'j, hj'⟩ :=
      ho.clone.exists_taken (ho.checked j c2 c1 hφ).1 hbad' hnone
    rcases step_phase hs h with ⟨k, ψ, hk, hstep, hphase⟩ | ⟨hne, -⟩
    · cases hk
      rw [hφ] at hstep
      generalize t.shm = m' at hstep
      cases hstep with
      | reject _ _ _ hle => omega
      | pass =>
        have hj : t.index (.clone j) = some c2 := by
          rw [t.index_eq, hphase, Function.update_self]
          rfl
        have htaken : t.index (.clone j') = some c2 := by
          rw [t.index_eq, hphase, Function.update_of_ne (by simpa using hj'j)]
          exact Phase.index_eq_some.mpr hj'
        exact hj'j (hinj j' j c2 htaken hj)
    · exact hne _ rfl
  · exact ha trivial

end Ordered

/-- A production handler reads the counter alone if no other one takes an index. -/
theorem readsAlone_of_single {cfg : Config} {cap : PipeId → ℕ} {as : List Act}
    (h : ∀ a ∈ as, ∀ j ≠ 0, a ≠ .count (.prod j)) :
    (aggregator cfg).Along ReadsAlone (listening cap) as := by
  refine Machine.Along.imp (I := fun s => Vacant s ∧ ∀ j ≠ 0, s.phase (.prod j) = .idle) ?_ ?_
    ⟨.listening cap, fun _ _ => rfl⟩ (Machine.along_of_forall_mem h _)
  · rintro s a t ⟨hs, hidle⟩ ha hstep
    refine ⟨hs.step hstep, fun j hj => ?_⟩
    rcases step_phase hs hstep with ⟨k, ψ, rfl, -, hphase⟩ | ⟨-, -, hphase⟩
    · rw [hphase, Function.update_of_ne, hidle j hj]
      rintro rfl
      exact ha j hj rfl
    · rw [hphase, hidle j hj]
  · rintro s a t ⟨-, hidle⟩ ha -
    unfold ReadsAlone
    split
    · next i =>
      obtain rfl : i = 0 := by
        by_contra hi
        exact ha i hi rfl
      intro hphase j
      by_cases hj : j = 0
      · rw [hj, hphase]
        rfl
      · rw [hidle j hj]
        rfl
    · trivial

/-- A production handler takes the index `0`. -/
def takeZero : List Act :=
  [.accept "10.0.0.1", .connect 0 true, .count (.prod 0), .count (.prod 0), .count (.prod 0),
    .count (.prod 0), .count (.prod 0)]

/-- Then a clone handler passes the check. -/
def cloneFollows : List Act :=
  takeZero ++ [.accept "10.0.0.2", .count (.clone 0), .count (.clone 0), .count (.clone 0)]

/-- Then two clone handlers read the counters, pass the check and count. -/
def bothPass : List Act :=
  takeZero ++ [.accept "10.0.0.2", .accept "10.0.0.2", .count (.clone 0), .count (.clone 1),
    .count (.clone 0), .count (.clone 1), .count (.clone 0), .count (.clone 1), .count (.clone 0),
    .count (.clone 0), .count (.clone 0), .count (.clone 0), .count (.clone 1), .count (.clone 1),
    .count (.clone 1), .count (.clone 1)]

end Parikshan.Aggregator
