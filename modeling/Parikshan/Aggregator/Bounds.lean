import Parikshan.Aggregator.Ownership
import Parikshan.Aggregator.Processes

/-!
# The bounds of the pipe table

A production handler goes by the first counter as it has read it, and a clone handler by the second
one once it has found it below the first. Neither compares it with `NUM_CONNS`, and neither counter
ever goes down, so the table is left when production has connected often enough.

## Main definitions

* `InTable`: the counter that a handler goes by is below `NUM_CONNS`.
* `ReadsInTable`: `pipes_arr` is read inside its bounds.
* `visit`: a production connection from `accept` to the exit of its handler.

## Main results

* `along_inTable_iff`: the runs in which every index that a handler takes has a pipe.
* `along_inTable_of_prods`: at most `NUM_CONNS` production connections stay inside the table.
* `visits_not_readsInTable`: the connection number `NUM_CONNS` leaves it.
-/

namespace Parikshan.Aggregator

/-- The step takes no index, or one that `pipes_arr` has. -/
def InTable (s : State) : Act → Prop
  | .count k => ∀ c, Phase.Takes s.shm k (s.phase k) c → c < numConns
  | _ => True

/-- Every index that a handler has taken is below `NUM_CONNS`. -/
def TakesInTable (s : State) : Prop := ∀ k c, s.index k = some c → c < numConns

/-- Every index with which a process reads `pipes_arr` is below `NUM_CONNS`. -/
def ReadsInTable (s : State) : Prop :=
  ∀ k pid p c, s.process k pid = some p → p.code = .call2 c → c < numConns

/-! ### The indices of a run -/

/-- The processes of every connection go by the index of its handler. -/
structure Lineages (s : State) : Prop where
  vacant : Vacant s
  lineage : ∀ k, Lineage (s.conn k).proc

section Bounds

variable {cfg : Config} {s t : State} {a : Act} {k : Conn} {c : ℕ}

theorem Lineages.listening (cap : PipeId → ℕ) : Lineages (listening cap) :=
  ⟨.listening cap, fun _ => .of_alone fun _ _ => rfl⟩

theorem Lineages.step (hs : Lineages s) (h : (aggregator cfg).step s a = some t) : Lineages t :=
  ⟨hs.vacant.step h, fun k => (hs.lineage k).step (step_family hs.vacant h k)⟩

theorem Lineages.readsInTable (hs : Lineages s) (htakes : TakesInTable s) : ReadsInTable s := by
  intro k pid p c hp hcode
  refine htakes k c ((hs.lineage k).index_eq hp ?_)
  rw [hcode, Code.index]

/-- A handler has an index after a step if it had it before, or takes it. -/
theorem index_of_step {m m' : Shm} {φ ψ : Phase} (h : Phase.Step m k φ m' ψ)
    (hc : ψ.index = some c) : φ.index = some c ∨ Phase.Takes m k φ c := by
  cases h with
  | take i =>
    cases hc
    exact Or.inr (.prod i)
  | read j => cases hc
  | compare j c2 => cases hc
  | reject j c2 c1 hle => cases hc
  | pass j c2 c1 hlt =>
    cases hc
    exact Or.inr (.clone j _ c1 hlt)
  | @increment _ d i _ r hr =>
    left
    cases r <;> exact hc

/-- A handler that takes an index has it after the step. -/
theorem index_of_takes {m m' : Shm} {φ ψ : Phase} (h : Phase.Step m k φ m' ψ)
    (hc : Phase.Takes m k φ c) : ψ.index = some c := by
  cases hc with
  | prod i =>
    cases h
    rfl
  | clone j c2 c1 hlt =>
    cases h with
    | reject _ _ _ hle => exact absurd hle (by omega)
    | pass _ _ _ _ => rfl

/-- A step that takes an index of the table keeps all indices inside it. -/
theorem TakesInTable.step (hs : Vacant s) (htakes : TakesInTable s) (ha : InTable s a)
    (h : (aggregator cfg).step s a = some t) : TakesInTable t := by
  rcases step_phase hs h with ⟨k, ψ, rfl, hstep, hphase⟩ | ⟨-, -, hphase⟩
  · intro k' c hc
    rw [State.index_eq, hphase] at hc
    by_cases hk : k' = k
    · subst hk
      rw [Function.update_self] at hc
      rcases index_of_step hstep hc with hold | hnew
      · exact htakes k' c (s.index_eq k' ▸ hold)
      · exact ha c hnew
    · rw [Function.update_of_ne hk] at hc
      exact htakes k' c (s.index_eq k' ▸ hc)
  · intro k' c hc
    rw [State.index_eq, hphase] at hc
    exact htakes k' c (s.index_eq k' ▸ hc)

/-- A step that takes another index leads out of the table. -/
theorem not_takesInTable (hs : Vacant s) (ha : ¬ InTable s a)
    (h : (aggregator cfg).step s a = some t) : ¬ TakesInTable t := by
  rcases step_phase hs h with ⟨k, ψ, rfl, hstep, hphase⟩ | ⟨hne, -, -⟩
  · obtain ⟨c, hnot⟩ := not_forall.mp ha
    obtain ⟨htakes, hge⟩ := Classical.not_imp.mp hnot
    refine fun hin => hge (hin k c ?_)
    rw [State.index_eq, hphase, Function.update_self]
    exact index_of_takes hstep htakes
  · exact absurd (by cases a <;> first | trivial | exact absurd rfl (hne _)) ha

theorem TakesInTable.listening (cap : PipeId → ℕ) : TakesInTable (listening cap) := by
  intro k c hc
  cases hc

/-- **The table.** The indices that the handlers take stay below `NUM_CONNS` exactly in the runs in
which every handler finds its counter below it, and in these `pipes_arr` is never read outside of
its bounds. -/
theorem along_inTable_iff (cfg : Config) (cap : PipeId → ℕ) (as : List Act) :
    ((aggregator cfg).Along InTable (listening cap) as ↔
      (aggregator cfg).Throughout TakesInTable (listening cap) as) ∧
    ((aggregator cfg).Along InTable (listening cap) as →
      (aggregator cfg).Throughout ReadsInTable (listening cap) as) := by
  have hstep (s : State) (a : Act) (t : State) (hs : Lineages s ∧ TakesInTable s)
      (ha : InTable s a) (h : (aggregator cfg).step s a = some t) : Lineages t ∧ TakesInTable t :=
    ⟨hs.1.step h, hs.2.step hs.1.vacant ha h⟩
  have hstart : Lineages (listening cap) ∧ TakesInTable (listening cap) :=
    ⟨.listening cap, .listening cap⟩
  refine ⟨?_, fun hall => hall.throughout hstep (fun s hs => hs.1.readsInTable hs.2) hstart⟩
  exact Machine.along_iff_throughout (H := fun _ _ => True)
    (fun s a t hs _ ha h => hstep s a t hs ha h) (fun s hs => hs.2)
    (fun s a t hs _ ha h => not_takesInTable hs.1.vacant ha h) hstart
    (Machine.along_true _ _)

/-! ### How many production connections fit -/

/-- The first counter counts production connections, and so a clone has compared its index with a
number of them. -/
structure Fitting (s : State) : Prop where
  vacant : Vacant s
  incrementing : Incrementing s.shm s.phase
  checked : ∀ j c2 c1, s.phase (.clone j) = .checking c2 c1 → c1 ≤ s.prods

theorem Vacant.idle (hs : Vacant s) {i : ℕ} (hi : s.prods ≤ i) : s.phase (.prod i) = .idle := by
  rw [State.phase, hs (.prod i) .main (Nat.not_lt.mpr hi)]
  rfl

theorem Fitting.shm_le (hs : Fitting s) : s.shm.shm ≤ s.prods := by
  have hlt : s.shm.shm < s.prods + 1 :=
    (hs.incrementing.counted .first).lt (i := s.prods)
      (fun j hj => by
        rw [settleds, Counter.conn, hs.vacant.idle (by omega), Phase.settled])
      (Nat.lt_succ_self _)
      (by rw [settleds, Counter.conn, hs.vacant.idle le_rfl, Phase.settled])
  omega

/-- A production connection that has yet to read the counter has not been counted. -/
theorem Fitting.shm_lt (hs : Fitting s) {i : ℕ} (hi : i < s.prods)
    (hidle : s.phase (.prod i) = .idle) : s.shm.shm < s.prods :=
  (hs.incrementing.counted .first).lt
    (fun j hj => by rw [settleds, Counter.conn, hs.vacant.idle hj, Phase.settled]) hi
    (by rw [settleds, Counter.conn, hidle, Phase.settled])

theorem Fitting.listening (cap : PipeId → ℕ) : Fitting (listening cap) where
  vacant := .listening cap
  incrementing := .createShmSeg
  checked j c2 c1 h := by cases h

theorem prods_le_of_step (h : (aggregator cfg).step s a = some t) : s.prods ≤ t.prods := by
  cases a with
  | accept addr =>
    obtain rfl : s.accept cfg addr = t := Option.some.inj h
    unfold State.accept
    split_ifs
    · exact Nat.le_succ s.prods
    · exact le_rfl
    · exact le_rfl
  | peer k e ev =>
    obtain ⟨x, -, rfl⟩ := step_peer h
    rfl
  | connect i ok =>
    obtain ⟨p, -, -, rfl⟩ := step_connect h
    cases ok <;> rfl
  | count k =>
    obtain ⟨p, m, code, -, -, rfl⟩ := step_count h
    rfl
  | fork k pid =>
    obtain ⟨p, code, child, start, -, -, rfl⟩ := step_fork h
    rfl
  | io k pid c =>
    obtain ⟨p, L, -, -, ⟨-, -, rfl⟩ | ⟨-, w, fds, -, rfl⟩⟩ := step_io h <;> rfl

theorem Fitting.step (hs : Fitting s) (h : (aggregator cfg).step s a = some t) : Fitting t := by
  have hprods := prods_le_of_step h
  rcases step_phase hs.vacant h with ⟨k, ψ, rfl, hstep, hphase⟩ | ⟨-, hshm, hphase⟩
  · refine ⟨hs.vacant.step h, hphase ▸ hs.incrementing.step hstep, fun j c2 c1 hj => ?_⟩
    rw [hphase] at hj
    by_cases hk : .clone j = k
    · subst hk
      rw [Function.update_self] at hj
      generalize s.phase (.clone j) = φ at hstep
      generalize t.shm = m at hstep
      cases hstep with
      | compare _ _ =>
        obtain ⟨-, rfl⟩ := Phase.checking.inj hj
        exact hs.shm_le.trans hprods
      | @increment _ d i _ r hr => cases r <;> cases hj
      | _ => cases hj
    · rw [Function.update_of_ne hk] at hj
      exact (hs.checked j c2 c1 hj).trans hprods
  · refine ⟨hs.vacant.step h, ?_, fun j c2 c1 hj => ?_⟩
    · rw [hphase, hshm]
      exact hs.incrementing
    · exact (hs.checked j c2 c1 (hphase ▸ hj)).trans hprods

/-- **At most `NUM_CONNS` production connections stay inside the table**, in whatever order they
and the clones are handled. -/
theorem along_inTable_of_prods (cfg : Config) (cap : PipeId → ℕ) (as : List Act)
    (h : (aggregator cfg).Along (fun s _ => s.prods ≤ numConns) (listening cap) as) :
    (aggregator cfg).Along InTable (listening cap) as := by
  refine Machine.Along.imp (I := Fitting) (fun s a t hs _ h => hs.step h)
    (fun s a t hs hle hstep => ?_) (.listening cap) h
  cases a with
  | count k =>
    intro c htakes
    generalize hφ : s.phase k = φ at htakes
    cases htakes with
    | prod i =>
      obtain ⟨p, -, -, hp, -, -⟩ := step_count hstep
      exact (hs.shm_lt (hs.vacant.accepted_of_process hp) hφ).trans_le hle
    | clone j c2 c1 hlt =>
      have hc1 := hs.checked j c c1 hφ
      omega
  | _ => trivial

/-! ### One production connection too many -/

/-- A production connection, from `accept` to the exit of its handler. -/
def visit (cfg : Config) (i : ℕ) : List Act :=
  [.accept cfg.remoteHost, .connect i true, .count (.prod i), .count (.prod i), .count (.prod i),
    .count (.prod i), .count (.prod i), .fork (.prod i) .main, .fork (.prod i) .main]

/-- A connection's process is at a place in its handler. -/
def State.At (s : State) (k : Conn) (pid : Pid) (code : Code) : Prop :=
  ∃ p, s.process k pid = some p ∧ p.code = code

theorem State.At.setProcess (s : State) (k : Conn) (pid : Pid) {p : Process} {code : Code}
    (hp : p.code = code) : (s.setProcess k pid p).At k pid code :=
  ⟨p, s.setProcess_process_self p, hp⟩

theorem State.At.count (cfg : Config) {code code' : Code} {m m' : Shm}
    (h : s.At k .main code) (hm : s.shm = m)
    (hx : handleCounters k m code = some (m', code')) :
    ∃ t, (aggregator cfg).step s (.count k) = some t ∧ t.At k .main code' ∧ t.shm = m' ∧
      t.prods = s.prods := by
  obtain ⟨p, hp, rfl⟩ := h
  subst hm
  refine ⟨State.setProcess { s with shm := m' } k .main (p.goto code'), ?_,
    .setProcess _ k .main (p.goto_code code'), rfl, rfl⟩
  exact Option.bind_eq_some_iff.mpr ⟨p, hp, Option.map_eq_some_iff.mpr ⟨_, hx, rfl⟩⟩

theorem State.At.fork (cfg : Config) {pid child : Pid} {code code' start : Code}
    (h : s.At k pid code)
    (hne : child ≠ pid) (hx : code.fork pid = some (code', child, start)) :
    ∃ t, (aggregator cfg).step s (.fork k pid) = some t ∧ t.At k pid code' ∧ t.At k child start ∧
      t.shm = s.shm ∧ t.prods = s.prods := by
  obtain ⟨p, hp, rfl⟩ := h
  refine ⟨(s.setProcess k pid (p.goto code')).setProcess k child (p.child start), ?_,
    ⟨p.goto code', ?_, p.goto_code code'⟩, .setProcess _ k child rfl, rfl, rfl⟩
  · exact Option.bind_eq_some_iff.mpr ⟨p, hp, Option.map_eq_some_iff.mpr ⟨_, hx, rfl⟩⟩
  · rw [State.setProcess_process_of_ne _ _ (Or.inr hne.symm), State.setProcess_process_self]

/-- A production connection advances the first counter, and leaves a process that reads
`pipes_arr` with the counter that it has found. -/
theorem run_visit (cfg : Config) {n n₂ : ℕ} (hs : s.shm = { shm := n, shm2 := n₂, mutex := 1 }) :
    ∃ t, (aggregator cfg).run s (visit cfg s.prods) = some t ∧ t.prods = s.prods + 1 ∧
      t.shm = { shm := n + 1, shm2 := n₂, mutex := 1 } ∧
      t.At (.prod s.prods) .second (.call2 n) := by
  obtain ⟨u, haccept, ⟨p, hp, hcode⟩, hshm, hprods⟩ :
      ∃ u, (aggregator cfg).step s (.accept cfg.remoteHost) = some u ∧
        u.At (.prod s.prods) .main .createConnection ∧ u.shm = s.shm ∧ u.prods = s.prods + 1 :=
    ⟨s.accept cfg cfg.remoteHost, rfl, by
      simp [State.accept, State.At, State.process, accepted]⟩
  obtain ⟨u₀, hconnect, hat, hshm₀, hprods₀⟩ :
      ∃ u₀, (aggregator cfg).step u (.connect s.prods true) = some u₀ ∧
        u₀.At (.prod s.prods) .main .getCounters ∧ u₀.shm = u.shm ∧ u₀.prods = u.prods := by
    refine ⟨u.connected s.prods p, ?_, .setProcess _ _ _ rfl, rfl, rfl⟩
    refine Option.bind_eq_some_iff.mpr ⟨p, hp, ?_⟩
    rw [hcode]
    rfl
  rw [hshm, hs] at hshm₀
  -- the counter section: the load, and the four statements of the increment
  obtain ⟨u₁, h₁, hat, hshm₁, hprods₁⟩ := hat.count cfg hshm₀ rfl
  obtain ⟨u₂, h₂, hat, hshm₂, hprods₂⟩ := hat.count cfg hshm₁ rfl
  obtain ⟨u₃, h₃, hat, hshm₃, hprods₃⟩ := hat.count cfg hshm₂ rfl
  obtain ⟨u₄, h₄, hat, hshm₄, hprods₄⟩ := hat.count cfg hshm₃ rfl
  obtain ⟨u₅, h₅, hat, hshm₅, hprods₅⟩ := hat.count cfg hshm₄ rfl
  obtain ⟨u₆, h₆, hat, -, hshm₆, hprods₆⟩ := hat.fork cfg (by simp) rfl
  obtain ⟨t, h₇, -, hat, hshm₇, hprods₇⟩ := hat.fork cfg (by simp) rfl
  refine ⟨t, ?_, ?_, ?_, hat⟩
  · simp only [visit, Machine.run_cons, haccept, hconnect, h₁, h₂, h₃, h₄, h₅, h₆, h₇,
      Option.bind_some, Machine.run_nil]
  · omega
  · rw [hshm₇, hshm₆, hshm₅]
    rfl

/-- The first production connections of a server, one after another. -/
def visits (cfg : Config) (n : ℕ) : List Act := (List.range n).flatMap (visit cfg)

theorem run_visits (cfg : Config) (cap : PipeId → ℕ) (n : ℕ) :
    ∃ t, (aggregator cfg).run (listening cap) (visits cfg n) = some t ∧ t.prods = n ∧
      t.shm = { shm := n, shm2 := 0, mutex := 1 } := by
  induction n with
  | zero => exact ⟨listening cap, rfl, rfl, rfl⟩
  | succ n ih =>
    obtain ⟨t, hrun, rfl, hshm⟩ := ih
    obtain ⟨u, hvisit, hprods, hshm, -⟩ := run_visit cfg hshm
    refine ⟨u, ?_, hprods, hshm⟩
    rw [visits, List.range_succ, List.flatMap_append, List.flatMap_singleton]
    exact (Machine.run_append_eq_some _).mpr ⟨t, hrun, hvisit⟩

end Bounds

/-- The connection number `NUM_CONNS` reads behind the end of `pipes_arr`. -/
theorem visits_not_readsInTable :
    ¬ ∀ (cfg : Config) (cap : PipeId → ℕ) (as : List Act),
      (aggregator cfg).Throughout ReadsInTable (listening cap) as := by
  let cfg : Config := { remoteHost := "10.0.0.1", duplicateHost := "10.0.0.2" }
  intro h
  obtain ⟨t, hrun, hprods, hshm⟩ := run_visits cfg (fun _ => 0) numConns
  obtain ⟨u, hvisit, -, -, p, hp, hcode⟩ := run_visit cfg hshm
  have hreads : ReadsInTable u := by
    refine (h cfg (fun _ => 0) (visits cfg numConns ++ visit cfg t.prods)).last ?_
    exact (Machine.run_append_eq_some _).mpr ⟨t, hrun, hvisit⟩
  exact lt_irrefl numConns (hreads _ _ p _ hp hcode)

end Parikshan.Aggregator
