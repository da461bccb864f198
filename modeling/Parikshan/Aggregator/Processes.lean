import Parikshan.Aggregator.Phases
import Parikshan.Posix.Dataflow

/-!
# The processes of one connection

A handler forks twice, and a child that returns from its function falls through to the code behind
the `fork`. This file says which processes a connection can have, what its handler holds, and what
one step of the aggregator does to the processes of one connection.

## Main definitions

* `Lineage`: which processes a connection has.
* `Process.Handler`: what a handler holds.
* `FamilyStep`: what a step does to the processes of a connection.

## Main results

* `step_family`: inversion of a step for one connection.
-/

namespace Parikshan.Aggregator

open Posix

/-- Replace a process of a connection. -/
def Connection.setProc (x : Connection) (pid : Pid) (p : Process) : Connection :=
  { x with proc := Function.update x.proc pid (some p) }

@[simp] theorem Connection.setProc_sock (x : Connection) (pid : Pid) (p : Process) :
    (x.setProc pid p).sock = x.sock := rfl

@[simp] theorem Connection.setProc_proc_self (x : Connection) (pid : Pid) (p : Process) :
    (x.setProc pid p).proc pid = some p :=
  Function.update_self ..

theorem Connection.setProc_proc_of_ne (x : Connection) {pid pid' : Pid} (h : pid' ≠ pid)
    (p : Process) : (x.setProc pid p).proc pid' = x.proc pid' :=
  Function.update_of_ne h ..

/-! ### Which processes exist -/

/-- The handler is past its forks. -/
def Code.Forked (code : Code) : Prop := ∃ c, code = .exited (some c)

/-- The children of a handler: the first exists from the first `fork` on, the second once the
handler has exited, and the child of the first one once that has; and all of them go by the index
of the handler. -/
structure Lineage (proc : Pid → Option Process) : Prop where
  family : ∀ pid p c, proc pid = some p → p.code.index = some c →
    ∃ m, proc .main = some m ∧ m.code.index = some c
  first : ∀ p, proc .first = some p →
    ∃ m, proc .main = some m ∧ ((∃ c, m.code = .fork2 c) ∨ m.code.Forked)
  second : ∀ p, proc .second = some p → ∃ m, proc .main = some m ∧ m.code.Forked
  firstSecond : ∀ p, proc .firstSecond = some p → ∃ m, proc .first = some m ∧ m.code.Forked

namespace Lineage

variable {proc : Pid → Option Process} {pid : Pid} {p q m : Process}

/-- Before its first `fork` a handler is alone. -/
theorem alone (h : Lineage proc) (hm : ∀ m, proc .main = some m →
    (∀ c, m.code ≠ .fork2 c) ∧ ¬ m.code.Forked) : ∀ pid, pid ≠ .main → proc pid = none := by
  have hfirst : proc .first = none := by
    by_contra hne
    obtain ⟨p, hp⟩ := Option.ne_none_iff_exists'.mp hne
    obtain ⟨m, hmain, ⟨c, hc⟩ | hc⟩ := h.first p hp
    · exact (hm m hmain).1 c hc
    · exact (hm m hmain).2 hc
  intro pid hpid
  by_contra hne
  obtain ⟨p, hp⟩ := Option.ne_none_iff_exists'.mp hne
  cases pid with
  | main => exact hpid rfl
  | first => exact hne hfirst
  | second =>
    obtain ⟨m, hmain, hc⟩ := h.second p hp
    exact (hm m hmain).2 hc
  | firstSecond =>
    obtain ⟨m, hmain, -⟩ := h.firstSecond p hp
    simp [hfirst] at hmain

theorem of_alone (h : ∀ pid, pid ≠ .main → proc pid = none) : Lineage proc where
  family pid p c hp hc := by
    by_cases hpid : pid = .main
    · exact ⟨p, hpid ▸ hp, hc⟩
    · simp [h pid hpid] at hp
  first p hp := by simp [h .first (by simp)] at hp
  second p hp := by simp [h .second (by simp)] at hp
  firstSecond p hp := by simp [h .firstSecond (by simp)] at hp

/-- A process goes on, and not back behind a `fork`. -/
theorem advance (h : Lineage proc) (hp : proc pid = some p) (hindex : q.code.index = p.code.index)
    (hfork : ∀ c, p.code = .fork2 c → q.code = .fork2 c ∨ q.code.Forked)
    (hforked : p.code.Forked → q.code.Forked) :
    Lineage (Function.update proc pid (some q)) := by
  -- whatever is said of a process that `advance` keeps is said of its successor
  have hkeep {pid' : Pid} {P : Code → Prop} (hP : P p.code → P q.code)
      (hm : ∃ m, proc pid' = some m ∧ P m.code) :
      ∃ m, Function.update proc pid (some q) pid' = some m ∧ P m.code := by
    obtain ⟨m, hm, hPm⟩ := hm
    by_cases hpid : pid' = pid
    · subst hpid
      obtain rfl := Option.some.inj (hp.symm.trans hm)
      exact ⟨q, Function.update_self .., hP hPm⟩
    · exact ⟨m, by rw [Function.update_of_ne hpid, hm], hPm⟩
  have hold {pid' : Pid} {r : Process} (hr : Function.update proc pid (some q) pid' = some r) :
      ∃ r', proc pid' = some r' ∧ r'.code.index = r.code.index := by
    by_cases hpid : pid' = pid
    · subst hpid
      rw [Function.update_self, Option.some.injEq] at hr
      exact ⟨p, hp, hr ▸ hindex.symm⟩
    · rw [Function.update_of_ne hpid] at hr
      exact ⟨r, hr, rfl⟩
  refine ⟨fun pid' r c hr hc => ?_, fun r hr => ?_, fun r hr => ?_, fun r hr => ?_⟩ <;>
    obtain ⟨r', hr', hindex'⟩ := hold hr
  · exact hkeep (P := fun code => code.index = some c) (fun h => hindex.trans h)
      (h.family pid' r' c hr' (hindex'.trans hc))
  · refine hkeep (P := fun code => (∃ c, code = .fork2 c) ∨ code.Forked) ?_ (h.first r' hr')
    rintro (⟨c, hc⟩ | hc)
    · exact (hfork c hc).imp_left fun h => ⟨c, h⟩
    · exact Or.inr (hforked hc)
  · exact hkeep hforked (h.second r' hr')
  · exact hkeep hforked (h.firstSecond r' hr')

/-- A child is created. -/
theorem spawn (h : Lineage proc) {child : Pid} (hnone : proc child = none)
    (hindex : ∀ c, q.code.index = some c → ∃ m, proc .main = some m ∧ m.code.index = some c)
    (hchild : child = .first ∧ (∃ m c, proc .main = some m ∧ m.code = .fork2 c) ∨
      child = .second ∧ (∃ m, proc .main = some m ∧ m.code.Forked) ∨
      child = .firstSecond ∧ ∃ m, proc .first = some m ∧ m.code.Forked) :
    Lineage (Function.update proc child (some q)) := by
  have hkeep {pid : Pid} {P : Process → Prop} (hm : ∃ m, proc pid = some m ∧ P m) :
      ∃ m, Function.update proc child (some q) pid = some m ∧ P m := by
    obtain ⟨m, hm, hPm⟩ := hm
    refine ⟨m, ?_, hPm⟩
    rw [Function.update_of_ne ?_, hm]
    rintro rfl
    simp [hnone] at hm
  have hold {pid : Pid} {r : Process} (hr : Function.update proc child (some q) pid = some r) :
      pid = child ∧ r = q ∨ proc pid = some r := by
    by_cases hpid : pid = child
    · subst hpid
      rw [Function.update_self, Option.some.injEq] at hr
      exact Or.inl ⟨rfl, hr.symm⟩
    · rw [Function.update_of_ne hpid] at hr
      exact Or.inr hr
  refine ⟨fun pid r c hr hc => ?_, fun r hr => ?_, fun r hr => ?_, fun r hr => ?_⟩
  · rcases hold hr with ⟨-, rfl⟩ | hr
    · exact hkeep (hindex c hc)
    · exact hkeep (h.family pid r c hr hc)
  · rcases hold hr with ⟨rfl, -⟩ | hr
    · obtain ⟨-, m, c, hm, hc⟩ := hchild.resolve_right (by simp)
      exact hkeep ⟨m, hm, Or.inl ⟨c, hc⟩⟩
    · exact hkeep (h.first r hr)
  · rcases hold hr with ⟨rfl, -⟩ | hr
    · simp only [reduceCtorEq, false_and, true_and, or_false, false_or] at hchild
      exact hkeep hchild
    · exact hkeep (h.second r hr)
  · rcases hold hr with ⟨rfl, -⟩ | hr
    · simp only [reduceCtorEq, false_and, true_and, false_or] at hchild
      exact hkeep hchild
    · exact hkeep (h.firstSecond r hr)

/-- The forks keep the lineage. -/
theorem fork (h : Lineage proc) {code start : Code} {child : Pid} (hp : proc pid = some p)
    (hfork : p.code.fork pid = some (code, child, start)) :
    proc child = none ∧
      Lineage (Function.update (Function.update proc pid (some (p.goto code))) child
        (some (p.child start))) := by
  have hgoto : (p.goto code).code = code := Process.goto_code p code
  have hmain {pid : Pid} {c : ℕ} (hp : proc pid = some p) (hc : p.code.index = some c)
      (hgo : (p.goto code).code.index = some c) :
      ∃ m, Function.update proc pid (some (p.goto code)) .main = some m ∧
        m.code.index = some c := by
    obtain ⟨m, hm, hmc⟩ := h.family pid p c hp hc
    by_cases hpid : .main = pid
    · subst hpid
      exact ⟨_, Function.update_self .., hgo⟩
    · exact ⟨m, by rw [Function.update_of_ne hpid, hm], hmc⟩
  obtain ⟨c, ⟨rfl, hcode, rfl, rfl, rfl⟩ | ⟨hcode, rfl, rfl, hpids⟩⟩ := Code.fork_cases hfork
  · have hnone : proc .first = none :=
      h.alone (fun m hm => by
        obtain rfl := Option.some.inj (hp.symm.trans hm)
        simp [hcode, Code.Forked]) .first (by simp)
    refine ⟨hnone, ?_⟩
    have hadv : Lineage (Function.update proc .main (some (p.goto (.fork2 c)))) :=
      h.advance hp (by rw [hgoto, hcode]; rfl) (by simp [hcode]) (by simp [hcode, Code.Forked])
    refine hadv.spawn (by rw [Function.update_of_ne (by simp), hnone]) (fun d hd => ?_) ?_
    · cases hd
      exact hmain hp (by rw [hcode]; rfl) (by rw [hgoto]; rfl)
    · exact Or.inl ⟨rfl, _, c, Function.update_self .., hgoto⟩
  · have hadv : Lineage (Function.update proc pid (some (p.goto (.exited (some c))))) :=
      h.advance hp (by rw [hgoto, hcode]; rfl) (fun _ _ => Or.inr ⟨c, hgoto⟩)
        fun _ => ⟨c, hgoto⟩
    have hindex : ∀ d, (p.child (.call2 c)).code.index = some d →
        ∃ m, Function.update proc pid (some (p.goto (.exited (some c)))) .main = some m ∧
          m.code.index = some d := by
      intro d hd
      cases hd
      exact hmain hp (by rw [hcode]; rfl) (by rw [hgoto]; rfl)
    rcases hpids with ⟨rfl, rfl⟩ | ⟨rfl, rfl⟩
    · have hnone : proc .second = none := by
        by_contra hne
        obtain ⟨q, hq⟩ := Option.ne_none_iff_exists'.mp hne
        obtain ⟨m, hm, d, hd⟩ := h.second q hq
        obtain rfl := Option.some.inj (hp.symm.trans hm)
        simp [hcode] at hd
      refine ⟨hnone, hadv.spawn (by rw [Function.update_of_ne (by simp), hnone]) hindex ?_⟩
      exact Or.inr (Or.inl ⟨rfl, _, Function.update_self .., c, hgoto⟩)
    · have hnone : proc .firstSecond = none := by
        by_contra hne
        obtain ⟨q, hq⟩ := Option.ne_none_iff_exists'.mp hne
        obtain ⟨m, hm, d, hd⟩ := h.firstSecond q hq
        obtain rfl := Option.some.inj (hp.symm.trans hm)
        simp [hcode] at hd
      refine ⟨hnone, hadv.spawn (by rw [Function.update_of_ne (by simp), hnone]) hindex ?_⟩
      exact Or.inr (Or.inr ⟨rfl, _, Function.update_self .., c, hgoto⟩)

end Lineage

/-! ### The handlers -/

/-- A handler calls no forwarder itself and keeps its descriptors, those of the sockets in `K`,
until it exits; the socket to the backend is there once `create_connection` has returned. -/
structure Process.Handler (K : Set End) (p : Process) : Prop where
  noCall : ∀ c, p.code ≠ .call1 c ∧ p.code ≠ .call2 c
  socks : (∀ c, p.code ≠ .exited c) → ∀ e ∈ K, e = .client ∨ p.code ≠ .createConnection →
    p.fds.socks e = true
  pipes : (∀ c, p.code ≠ .exited c) → (∀ q, p.fds.rd q = true) ∧ ∀ q, p.fds.wr q = true

namespace Process

variable {K : Set End} {p : Process} {code : Code}

theorem goto_fds (p : Process) (hcode : ∀ c, code ≠ .exited c) : (p.goto code).fds = p.fds := by
  cases code with
  | exited c => exact absurd rfl (hcode c)
  | _ => rfl

theorem Handler.goto (h : p.Handler K) (hp : ∀ c, p.code ≠ .exited c)
    (hcreate : p.code ≠ .createConnection) (hcode : ∀ c, code ≠ .call1 c ∧ code ≠ .call2 c) :
    (p.goto code).Handler K := by
  refine ⟨fun c => by rw [goto_code]; exact hcode c, fun hne => ?_, fun hne => ?_⟩ <;>
    rw [goto_code] at hne
  · exact fun e he _ => p.goto_fds hne ▸ h.socks hp e he (Or.inr hcreate)
  · exact p.goto_fds hne ▸ h.pipes hp

theorem Handler.exited (p : Process) (c : Option ℕ) : (p.goto (.exited c)).Handler K :=
  ⟨by simp, fun h => absurd rfl (h c),
    fun h => absurd rfl (h c)⟩

/-- A child has the descriptors of the handler. -/
theorem Handler.child (h : p.Handler K) (hp : ∀ c, p.code ≠ .exited c)
    (hcreate : p.code ≠ .createConnection) (code : Code) :
    (p.child code).fds.HoldsSocks K ∧ (p.child code).fds.HoldsPipes :=
  ⟨fun _ e he => h.socks hp e he (Or.inr hcreate), fun _ _ => h.pipes hp⟩

/-- A process runs a loop during one of the two calls. -/
theorem loop_cases {k : Conn} {L : Loop End PipeId} (h : p.loop k = some L) :
    (∃ c, p.code = .call1 c ∧ L = firstCall k) ∨
      ∃ c q, p.code = .call2 c ∧ pipesArr c = some q ∧ L = secondCall k q := by
  unfold loop at h
  split at h
  · next c hcode => exact Or.inl ⟨c, hcode, (Option.some.inj h).symm⟩
  · next c hcode =>
    obtain ⟨q, hq, rfl⟩ := Option.map_eq_some_iff.mp h
    exact Or.inr ⟨c, q, hcode, hq, rfl⟩
  · cases h

end Process

/-- A process in a loop goes on, or returns from it. -/
theorem Lineage.io {proc : Pid → Option Process} {pid : Pid} {k : Conn} {p : Process}
    {L : Loop End PipeId} (h : Lineage proc) (hp : proc pid = some p) (hL : p.loop k = some L) :
    (∀ fds, Lineage (Function.update proc pid (some { p with fds := fds }))) ∧
      Lineage (Function.update proc pid (some p.afterCall)) := by
  refine ⟨fun fds => h.advance hp rfl (fun c hc => Or.inl hc) id, ?_⟩
  obtain ⟨c, hcode, -⟩ | ⟨c, q, hcode, -, -⟩ := Process.loop_cases hL <;>
    exact h.advance hp (by simp [Process.afterCall, hcode, Code.index]) (by simp [hcode])
      (by simp [hcode, Code.Forked])

/-! ### Connections after an update -/

theorem State.setProcess_conn_self (s : State) (k : Conn) (pid : Pid) (p : Process) :
    (s.setProcess k pid p).conn k = (s.conn k).setProc pid p :=
  Function.update_self ..

theorem State.setWorld_conn_self (s : State) (k : Conn) (w : World End PipeId) :
    (s.setWorld k w).conn k = { s.conn k with sock := w.sock } :=
  Function.update_self ..

section Conn

variable {s : State} {k k' : Conn} {pid : Pid} {p : Process} {w : World End PipeId}

theorem State.setProcess_conn_of_ne (h : k' ≠ k) : (s.setProcess k pid p).conn k' = s.conn k' :=
  Function.update_of_ne h ..

theorem State.setWorld_conn_of_ne (h : k' ≠ k) : (s.setWorld k w).conn k' = s.conn k' :=
  Function.update_of_ne h ..

end Conn

theorem val_of_pipesArr {d : ℕ} {q : PipeId} (h : pipesArr d = some q) : q.val = d := by
  unfold pipesArr at h
  split_ifs at h
  cases h
  rfl

/-- Every process of a connection goes by the index of its handler. -/
theorem Lineage.index_eq {s : State} {k : Conn} {pid : Pid} {p : Process} {d : ℕ}
    (h : Lineage (s.conn k).proc) (hp : s.process k pid = some p) (hd : p.code.index = some d) :
    s.index k = some d := by
  obtain ⟨m, hm, hmd⟩ := h.family pid p d hp hd
  rw [State.index, State.process, hm, Option.bind_some, hmd]

/-- A counter section lies before the forks. -/
theorem handleCounters_code {k : Conn} {m m' : Shm} {code code' : Code}
    (h : handleCounters k m code = some (m', code')) :
    (∀ c, code ≠ .exited c) ∧ code ≠ .createConnection ∧ (∀ c, code ≠ .fork2 c) ∧
      ∀ c, code' ≠ .call1 c ∧ code' ≠ .call2 c := by
  have hafter (c : ℕ) (r : Option Inc) :
      ∀ d, Code.afterInc c r ≠ .call1 d ∧ Code.afterInc c r ≠ .call2 d := by
    cases r <;> simp [Code.afterInc]
  cases k with
  | prod i =>
    simp only [handleCounters, handleProdClient] at h
    split at h
    · cases h
      simp
    · next c inc =>
      obtain ⟨⟨m₁, r⟩, -, heq⟩ := Option.map_eq_some_iff.mp h
      cases heq
      exact ⟨by simp, by simp, by simp, hafter c r⟩
    · cases h
  | clone j =>
    simp only [handleCounters, handleCloneClient] at h
    split at h
    · cases h
      simp
    · cases h
      simp
    · next c2 c1 =>
      obtain ⟨-, rfl⟩ := by simpa only [Option.some.injEq, Prod.mk.injEq] using h
      split_ifs <;> simp
    · next c inc =>
      obtain ⟨⟨m₁, r⟩, -, heq⟩ := Option.map_eq_some_iff.mp h
      cases heq
      exact ⟨by simp, by simp, by simp, hafter c r⟩
    · cases h

/-! ### What a step does to a connection -/

/-- What a step does to the processes of one connection: nothing, or the handler is created,
connects to the backend or takes a step of its counter section, or a process forks, goes on in its
loop or returns from it. -/
inductive FamilyStep (s : State) (k : Conn) (f : Pid → Option Process) :
    Act → (Pid → Option Process) → Prop
  | same {a : Act} (ha : ∀ pid, a ≠ .fork k pid) : FamilyStep s k f a f
  | accept {addr : String} {code : Code} (hnone : ∀ pid, f pid = none)
      (hcode : code = .createConnection ∨ code = .getCounters) :
      FamilyStep s k f (.accept addr) (accepted s.server code).proc
  | connect {i : ℕ} {ok : Bool} {p q : Process} (hk : k = .prod i) (hp : f .main = some p)
      (hcode : p.code = .createConnection)
      (hq : q = p.goto (.exited none) ∨ q =
        { code := .getCounters
          fds := { p.fds with socks := Function.update p.fds.socks .remote true } }) :
      FamilyStep s k f (.connect i ok) (Function.update f .main (some q))
  | count {p : Process} {m : Shm} {code : Code} (hp : f .main = some p)
      (h : handleCounters k s.shm p.code = some (m, code)) :
      FamilyStep s k f (.count k) (Function.update f .main (some (p.goto code)))
  | fork {pid child : Pid} {p : Process} {code start : Code} (hp : f pid = some p)
      (h : p.code.fork pid = some (code, child, start)) :
      FamilyStep s k f (.fork k pid)
        (Function.update (Function.update f pid (some (p.goto code))) child
          (some (p.child start)))
  | loop {pid : Pid} {c : Choice} {p : Process} {L : Loop End PipeId} {w : World End PipeId}
      {fds : Proc End PipeId} (hp : f pid = some p) (hL : p.loop k = some L)
      (h : L.step s.hasRd s.hasWr (s.world k) p.fds c = some (w, fds)) :
      FamilyStep s k f (.io k pid c) (Function.update f pid (some { p with fds := fds }))
  | ret {pid : Pid} {n : ℕ} {p : Process} {L : Loop End PipeId} (hp : f pid = some p)
      (hL : p.loop k = some L) (hpc : p.fds.pc = .cleanup []) :
      FamilyStep s k f (.io k pid (.run n)) (Function.update f pid (some p.afterCall))

section Family

variable {cfg : Config} {s t : State} {a : Act} {k : Conn} {f g : Pid → Option Process}

/-- **Inversion of a step for one connection.** -/
theorem step_family (hs : Vacant s) (h : (aggregator cfg).step s a = some t) (k : Conn) :
    FamilyStep s k (s.conn k).proc a (t.conn k).proc := by
  cases a with
  | accept addr =>
    cases h
    unfold State.accept
    split_ifs
    · by_cases hk : k = .prod s.prods
      · subst hk
        simp only [Function.update_self]
        exact .accept (fun pid => hs (.prod s.prods) pid (Nat.lt_irrefl _)) (Or.inl rfl)
      · simp only [Function.update_of_ne hk]
        exact .same (by simp)
    · by_cases hk : k = .clone s.clones
      · subst hk
        simp only [Function.update_self]
        exact .accept (fun pid => hs (.clone s.clones) pid (Nat.lt_irrefl _)) (Or.inr rfl)
      · simp only [Function.update_of_ne hk]
        exact .same (by simp)
    · exact .same (by simp)
  | peer k' e ev =>
    obtain ⟨x, -, rfl⟩ := step_peer h
    have hproc : ((s.setWorld k' ((s.world k').setSock e x)).conn k).proc = (s.conn k).proc :=
      funext fun pid => State.setWorld_process s _
    rw [hproc]
    exact .same (by simp)
  | connect i ok =>
    obtain ⟨p, hp, hcode, rfl⟩ := step_connect h
    by_cases hk : k = .prod i
    · subst hk
      cases ok with
      | false =>
        rw [if_neg (by simp), State.setProcess_conn_self]
        exact .connect rfl hp hcode (Or.inl rfl)
      | true =>
        rw [if_pos rfl, State.connected, State.setProcess_conn_self, State.setWorld_conn_self]
        exact .connect rfl hp hcode (Or.inr rfl)
    · have hconn : (if ok = true then s.connected i p else
          s.setProcess (.prod i) .main (p.goto (.exited none))).conn k = s.conn k := by
        cases ok with
        | false => exact State.setProcess_conn_of_ne hk
        | true => exact (State.setProcess_conn_of_ne hk).trans (State.setWorld_conn_of_ne hk)
      rw [hconn]
      exact .same (by simp)
  | count k' =>
    obtain ⟨p, m, code, hp, hx, rfl⟩ := step_count h
    by_cases hk : k = k'
    · subst hk
      rw [State.setProcess_conn_self]
      exact .count hp hx
    · rw [State.setProcess_conn_of_ne hk]
      exact .same (by simp)
  | fork k' pid =>
    obtain ⟨p, code, child, start, hp, hx, rfl⟩ := step_fork h
    by_cases hk : k = k'
    · subst hk
      rw [State.setProcess_conn_self, State.setProcess_conn_self]
      exact .fork hp hx
    · rw [State.setProcess_conn_of_ne hk, State.setProcess_conn_of_ne hk]
      exact .same fun pid' heq => hk (Act.fork.inj heq).1.symm
  | io k' pid c =>
    obtain ⟨p, L, hp, hL, ⟨⟨n, rfl⟩, hpc, rfl⟩ | ⟨-, w, fds, hloop, rfl⟩⟩ := step_io h
    · by_cases hk : k = k'
      · subst hk
        rw [State.setProcess_conn_self]
        exact .ret hp hL hpc
      · rw [State.setProcess_conn_of_ne hk]
        exact .same (by simp)
    · by_cases hk : k = k'
      · subst hk
        rw [State.setProcess_conn_self, State.setWorld_conn_self]
        exact .loop hp hL hloop
      · rw [State.setProcess_conn_of_ne hk, State.setWorld_conn_of_ne hk]
        exact .same (by simp)

theorem accepted_proc_of_ne {server : Server} {code : Code} {pid : Pid} (h : pid ≠ .main) :
    (accepted server code).proc pid = none := by
  cases pid <;> first | exact absurd rfl h | rfl

/-- Before its forks a handler moves alone. -/
theorem Lineage.setMain (hl : Lineage f) {p q : Process} (hp : f .main = some p)
    (hfork : ∀ c, p.code ≠ .fork2 c) (hforked : ∀ c, p.code ≠ .exited c) :
    ∀ pid ≠ .main, f pid = none ∧ Function.update f .main (some q) pid = none := by
  intro pid hpid
  have hnone : f pid = none := by
    refine hl.alone (fun m hm => ?_) pid hpid
    obtain rfl := Option.some.inj (hp.symm.trans hm)
    exact ⟨hfork, fun hc => hc.elim fun c => hforked _⟩
  exact ⟨hnone, by rw [Function.update_of_ne hpid, hnone]⟩

/-- Every step keeps the lineage. -/
theorem Lineage.step (hl : Lineage f) (h : FamilyStep s k f a g) : Lineage g := by
  cases h with
  | same ha => exact hl
  | accept hnone hcode => exact .of_alone fun pid hpid => accepted_proc_of_ne hpid
  | connect hk hp hcode hq =>
    exact .of_alone fun pid hpid => (hl.setMain hp (by simp [hcode]) (by simp [hcode]) pid hpid).2
  | count hp hx =>
    obtain ⟨hexited, -, hfork, -⟩ := handleCounters_code hx
    exact .of_alone fun pid hpid => (hl.setMain hp hfork hexited pid hpid).2
  | fork hp hx => exact (hl.fork hp hx).2
  | loop hp hL hloop => exact (hl.io hp hL).1 _
  | ret hp hL hpc => exact (hl.io hp hL).2

end Family

end Parikshan.Aggregator
