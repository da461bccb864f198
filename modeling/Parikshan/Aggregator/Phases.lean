import Parikshan.Aggregator.Model

/-!
# The counter protocol of the aggregator

As far as the two counters go, a handler is idle, or in its counter section, or holds an index for
good. The steps of the whole aggregator act on these phases and on the shared segment as the steps
of a small protocol, and all steps but those of the counter sections leave them as they are.

## Main definitions

* `Phase`, `State.phase`: where the handler of a connection is.
* `Phase.Step`: the protocol.

## Main results

* `step_phase`: the aggregator refines the protocol.
* `State.index_eq`: the index that a handler goes by, in terms of its phase.
-/

namespace Parikshan.Aggregator

open Posix

/-- Where a handler is with respect to the counters. -/
inductive Phase
  | idle
  | reading (c2 : ℕ)
  | checking (c2 c1 : ℕ)
  | counting (c : ℕ) (i : Inc)
  | holding (c : ℕ)
  deriving DecidableEq, Repr

namespace Phase

/-- The index of a handler that has not stored the incremented counter yet. -/
def pending : Phase → Option ℕ
  | .counting c .p => some c
  | .counting c .load => some c
  | .counting c (.store _) => some c
  | .counting _ .v => none
  | .idle => none
  | .reading _ => none
  | .checking _ _ => none
  | .holding _ => none

/-- The index of a handler that has stored the incremented counter. -/
def settled : Phase → Option ℕ
  | .counting _ .p => none
  | .counting _ .load => none
  | .counting _ (.store _) => none
  | .counting c .v => some c
  | .idle => none
  | .reading _ => none
  | .checking _ _ => none
  | .holding c => some c

/-- The index of a handler. -/
def index : Phase → Option ℕ
  | .counting c _ => some c
  | .holding c => some c
  | .idle => none
  | .reading _ => none
  | .checking _ _ => none

/-- The increment that a handler is in. -/
def inc (x : Counter) : Phase → Option (Counter × Inc)
  | .counting _ i => some (x, i)
  | .idle => none
  | .reading _ => none
  | .checking _ _ => none
  | .holding _ => none

/-- A handler goes on with the rest of an increment, or behind it. -/
def afterInc (c : ℕ) : Option Inc → Phase
  | some i => .counting c i
  | none => .holding c

theorem index_eq_some {φ : Phase} {c : ℕ} :
    φ.index = some c ↔ φ.pending = some c ∨ φ.settled = some c := by
  cases φ with
  | counting d i => cases i <;> simp [index, pending, settled]
  | _ => simp [index, pending, settled]

end Phase

/-- The phase of a position in the source. -/
def Code.phase : Code → Phase
  | .createConnection => .idle
  | .getCounters => .idle
  | .getCounter1 c2 => .reading c2
  | .check c2 c1 => .checking c2 c1
  | .increment c i => .counting c i
  | .fork1 c => .holding c
  | .call1 c => .holding c
  | .fork2 c => .holding c
  | .call2 c => .holding c
  | .exited (some c) => .holding c
  | .exited none => .idle

theorem Code.index_eq (code : Code) : code.index = code.phase.index := by
  cases code with
  | exited c => cases c <;> rfl
  | _ => rfl

/-- The counter that a handler increments. -/
def Conn.counter : Conn → Counter
  | .prod _ => .first
  | .clone _ => .second

/-- The steps of the counter sections. -/
inductive Phase.Step (m : Shm) : Conn → Phase → Shm → Phase → Prop
  | take (i : ℕ) : Step m (.prod i) .idle m (.counting m.shm .p)
  | read (j : ℕ) : Step m (.clone j) .idle m (.reading m.shm2)
  | compare (j c2 : ℕ) : Step m (.clone j) (.reading c2) m (.checking c2 m.shm)
  | reject (j c2 c1 : ℕ) (h : c1 ≤ c2) : Step m (.clone j) (.checking c2 c1) m .idle
  | pass (j c2 c1 : ℕ) (h : c2 < c1) : Step m (.clone j) (.checking c2 c1) m (.counting c2 .p)
  | increment (k : Conn) (c : ℕ) {i : Inc} {m' : Shm} {r : Option Inc}
      (h : m.increment k.counter i = some (m', r)) :
      Step m k (.counting c i) m' (.afterInc c r)

/-- The counter sections of both handlers follow the protocol. -/
theorem Phase.Step.of_handleCounters {k : Conn} {m m' : Shm} {code code' : Code}
    (h : handleCounters k m code = some (m', code')) : Step m k code.phase m' code'.phase := by
  have hafter (c : ℕ) (r : Option Inc) : (Code.afterInc c r).phase = .afterInc c r := by
    cases r <;> rfl
  cases k with
  | prod i =>
    simp only [handleCounters, handleProdClient] at h
    split at h
    · cases h
      exact .take i
    · next c inc =>
      obtain ⟨⟨m₁, r⟩, hr, heq⟩ := Option.map_eq_some_iff.mp h
      cases heq
      exact hafter c r ▸ .increment (.prod i) c hr
    · cases h
  | clone j =>
    simp only [handleCounters, handleCloneClient] at h
    split at h
    · cases h
      exact .read j
    · next c2 =>
      cases h
      exact .compare j c2
    · next c2 c1 =>
      obtain ⟨rfl, rfl⟩ := by simpa only [Option.some.injEq, Prod.mk.injEq] using h
      split_ifs with hc
      · exact .reject j c2 c1 hc
      · exact .pass j c2 c1 (by omega)
    · next c inc =>
      obtain ⟨⟨m₁, r⟩, hr, heq⟩ := Option.map_eq_some_iff.mp h
      cases heq
      exact hafter c r ▸ .increment (.clone j) c hr
    · cases h

/-! ### The phases of a state -/

/-- The phase of a connection's handler; a connection not yet accepted counts as idle. -/
def State.phase (s : State) (k : Conn) : Phase :=
  (s.process k .main).elim .idle fun p => p.code.phase

/-- The index into `pipes_arr` that a connection's handler goes by. -/
def State.index (s : State) (k : Conn) : Option ℕ := (s.process k .main).bind fun p => p.code.index

theorem State.index_eq (s : State) (k : Conn) : s.index k = (s.phase k).index := by
  cases hp : s.process k .main with
  | none => simp [index, phase, hp, Phase.index]
  | some p => simp [index, phase, hp, Code.index_eq]

/-- The connection has been accepted. -/
def State.Accepted (s : State) : Conn → Prop
  | .prod i => i < s.prods
  | .clone j => j < s.clones

/-- Only accepted connections have processes. -/
def Vacant (s : State) : Prop := ∀ k pid, ¬ s.Accepted k → s.process k pid = none

section Phases

variable {cfg : Config} {s t : State} {k : Conn} {pid : Pid} {p : Process} {a : Act}

theorem State.phase_of_process (h : s.process k .main = some p) : s.phase k = p.code.phase := by
  rw [phase, h, Option.elim_some]

theorem State.phase_setProcess_main :
    (s.setProcess k .main p).phase = Function.update s.phase k p.code.phase := by
  funext k'
  by_cases hk : k' = k
  · subst hk
    rw [phase, setProcess_process_self, Function.update_self, Option.elim_some]
  · rw [phase, setProcess_process_of_ne s p (Or.inl hk), Function.update_of_ne hk, phase]

theorem State.phase_setProcess_child (h : pid ≠ .main) :
    (s.setProcess k pid p).phase = s.phase := by
  funext k'
  rw [phase, setProcess_process_of_ne s p (Or.inr h.symm), phase]

/-- A handler that moves within its phase. -/
theorem State.phase_setProcess_same {q : Process} (hp : s.process k pid = some p)
    (hq : q.code.phase = p.code.phase) : (s.setProcess k pid q).phase = s.phase := by
  by_cases hpid : pid = .main
  · subst hpid
    rw [phase_setProcess_main, hq, ← phase_of_process hp, Function.update_eq_self]
  · exact phase_setProcess_child hpid

theorem State.phase_setWorld (w : World End PipeId) : (s.setWorld k w).phase = s.phase := by
  funext k'
  rw [phase, setWorld_process, phase]

theorem Vacant.listening (cap : PipeId → ℕ) : Vacant (listening cap) := fun _ _ _ => rfl

theorem Vacant.accepted_of_process (hs : Vacant s) (hp : s.process k pid = some p) :
    s.Accepted k := by
  by_contra hk
  simp [hs k pid hk] at hp

/-- Replacing a process of an accepted connection. -/
theorem Vacant.setProcess (hs : Vacant s) (hk : s.Accepted k) (pid : Pid) (q : Process) :
    Vacant (s.setProcess k pid q) := by
  intro k' pid' hk'
  have hne : k' ≠ k := by
    rintro rfl
    exact hk' (by cases k' <;> exact hk)
  rw [State.setProcess_process_of_ne s q (Or.inl hne)]
  exact hs k' pid' (by cases k' <;> exact hk')

theorem Vacant.setWorld (hs : Vacant s) (w : World End PipeId) : Vacant (s.setWorld k w) := by
  intro k' pid' hk'
  rw [State.setWorld_process]
  exact hs k' pid' (by cases k' <;> exact hk')

/-- Connections are accepted once, and only accepted ones have processes. -/
theorem Vacant.step (hs : Vacant s) (h : (aggregator cfg).step s a = some t) : Vacant t := by
  cases a with
  | accept addr =>
    cases h
    intro k pid hk
    unfold State.accept at hk ⊢
    split_ifs at hk ⊢
    · have hne : k ≠ .prod s.prods := by
        rintro rfl
        exact hk (Nat.lt_succ_self _)
      have hk' : ¬ s.Accepted k := by
        cases k with
        | prod i => exact fun hi => hk (Nat.lt_succ_of_lt hi)
        | clone j => exact hk
      simpa [State.process, Function.update_of_ne hne] using hs k pid hk'
    · have hne : k ≠ .clone s.clones := by
        rintro rfl
        exact hk (Nat.lt_succ_self _)
      have hk' : ¬ s.Accepted k := by
        cases k with
        | prod i => exact hk
        | clone j => exact fun hj => hk (Nat.lt_succ_of_lt hj)
      simpa [State.process, Function.update_of_ne hne] using hs k pid hk'
    · exact hs k pid hk
  | peer k e ev =>
    obtain ⟨x, -, rfl⟩ := step_peer h
    exact hs.setWorld _
  | connect i ok =>
    obtain ⟨p, hp, -, rfl⟩ := step_connect h
    cases ok with
    | true => exact (hs.setWorld _).setProcess (hs.accepted_of_process hp) _ _
    | false => exact hs.setProcess (hs.accepted_of_process hp) _ _
  | count k =>
    obtain ⟨p, m, code, hp, -, rfl⟩ := step_count h
    exact Vacant.setProcess (s := { s with shm := m }) hs (hs.accepted_of_process hp) _ _
  | fork k pid =>
    obtain ⟨p, code, child, start, hp, -, rfl⟩ := step_fork h
    exact (hs.setProcess (hs.accepted_of_process hp) _ _).setProcess (hs.accepted_of_process hp) _ _
  | io k pid c =>
    obtain ⟨p, L, hp, -, ⟨-, -, rfl⟩ | ⟨-, w, fds, -, rfl⟩⟩ := step_io h
    · exact hs.setProcess (hs.accepted_of_process hp) _ _
    · exact (hs.setWorld w).setProcess (hs.accepted_of_process hp) _ _

/-- A new connection does not disturb the phases. -/
theorem Vacant.phase_accept (hs : Vacant s) (addr : String) :
    (s.accept cfg addr).phase = s.phase ∧ (s.accept cfg addr).shm = s.shm := by
  have hnew (k₀ : Conn) (hk₀ : ¬ s.Accepted k₀) (t : State) (code : Code)
      (hcode : code.phase = .idle)
      (ht : t.conn = Function.update s.conn k₀ (accepted s.server code)) : t.phase = s.phase := by
    funext k
    by_cases hk : k = k₀
    · subst hk
      have hidle : s.phase k = .idle := by rw [State.phase, hs k .main hk₀, Option.elim_none]
      rw [hidle]
      simp [State.phase, State.process, ht, accepted, hcode]
    · simp [State.phase, State.process, ht, Function.update_of_ne hk]
  unfold State.accept
  split_ifs
  · exact ⟨hnew (.prod s.prods) (Nat.lt_irrefl _) _ _ rfl rfl, rfl⟩
  · exact ⟨hnew (.clone s.clones) (Nat.lt_irrefl _) _ _ rfl rfl, rfl⟩
  · exact ⟨rfl, rfl⟩

/-- **The aggregator refines the counter protocol**: a step of a counter section is a step of the
protocol, and no other step touches the counters or a phase. -/
theorem step_phase (hs : Vacant s) (h : (aggregator cfg).step s a = some t) :
    (∃ k φ, a = .count k ∧ Phase.Step s.shm k (s.phase k) t.shm φ ∧
      t.phase = Function.update s.phase k φ) ∨
      (∀ k, a ≠ .count k) ∧ t.shm = s.shm ∧ t.phase = s.phase := by
  cases a with
  | accept addr =>
    cases h
    obtain ⟨hphase, hshm⟩ : (s.accept cfg addr).phase = s.phase ∧
        (s.accept cfg addr).shm = s.shm := hs.phase_accept addr
    exact Or.inr ⟨by simp, hshm, hphase⟩
  | peer k e ev =>
    obtain ⟨x, -, rfl⟩ := step_peer h
    exact Or.inr ⟨by simp, rfl, State.phase_setWorld _⟩
  | connect i ok =>
    obtain ⟨p, hp, hcode, rfl⟩ := step_connect h
    refine Or.inr ⟨by simp, by cases ok <;> rfl, ?_⟩
    cases ok with
    | true =>
      rw [if_pos rfl, State.connected, State.phase_setProcess_same (p := p) (by simpa using hp)
        (by rw [hcode]; rfl), State.phase_setWorld]
    | false =>
      rw [if_neg (by simp), State.phase_setProcess_same hp (by rw [Process.goto_code, hcode]; rfl)]
  | count k =>
    obtain ⟨p, m, code, hp, hx, rfl⟩ := step_count h
    refine Or.inl ⟨k, code.phase, rfl, ?_, ?_⟩
    · rw [State.phase_of_process hp]
      exact .of_handleCounters hx
    · rw [State.phase_setProcess_main, Process.goto_code]
      rfl
  | fork k pid =>
    obtain ⟨p, code, child, start, hp, hx, rfl⟩ := step_fork h
    refine Or.inr ⟨by simp, rfl, ?_⟩
    obtain ⟨c, ⟨rfl, hcode, rfl, rfl, rfl⟩ | ⟨hcode, rfl, rfl, ⟨rfl, rfl⟩ | ⟨rfl, rfl⟩⟩⟩ :=
      Code.fork_cases hx
    all_goals
      rw [State.phase_setProcess_child (by simp),
        State.phase_setProcess_same hp (by rw [Process.goto_code, hcode]; rfl)]
  | io k pid c =>
    obtain ⟨p, L, hp, hL, ⟨-, -, rfl⟩ | ⟨-, w, fds, -, rfl⟩⟩ := step_io h
    · refine Or.inr ⟨by simp, rfl, State.phase_setProcess_same hp ?_⟩
      unfold Process.afterCall
      split <;> next hcode => simp [hcode, Code.phase]
    · refine Or.inr ⟨by simp, rfl, ?_⟩
      rw [State.phase_setProcess_same (p := p) (q := { p with fds := fds }) (by simpa using hp) rfl,
        State.phase_setWorld]

end Phases

end Parikshan.Aggregator
