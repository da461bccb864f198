import Parikshan.Aggregator.Ownership
import Parikshan.Machine.Simulation

/-!
# The clones never reach production

The handlers of production and clone connections share the counters, the semaphore and the pipes,
but what the production side does on its sockets depends on none of them: the view of a state that
keeps the production sockets and what the production processes do on them, and forgets the
indices, the counters, the pipes and all clone connections, unwinds. So two runs that agree on the
production side send the same on every production and backend socket.

No clone has the address `remote_host`, so that the connections accepted from it are exactly those
of the production containers.

## Main definitions

* `productionSide`: the steps of the production side.
* `State.production`: the view of the production side.
* `Undisturbed`: what the clone side can not do to production in a state.

## Main results

* `production_unwinding`: the view unwinds.
* `production_isolation`: isolation of production from the clones.
-/

namespace Parikshan.Aggregator

open Posix

/-! ### The production side -/

/-- The steps of the production side: connections accepted from `remote_host`, what their peers and
the backend do, and the steps of their processes. The steps of the counter sections and the writes
on the pipes, on whose outcome the clone side has an influence, are left out. -/
def productionSide (cfg : Config) : Act → Option Act
  | .accept addr => if addr = cfg.remoteHost then some (.accept addr) else none
  | .peer (.prod i) e ev => some (.peer (.prod i) e ev)
  | .connect i ok => some (.connect i ok)
  | .fork (.prod i) pid => some (.fork (.prod i) pid)
  | .io (.prod i) pid (.run n) => some (.io (.prod i) pid (.run n))
  | _ => none

/-- What a production process does next, its index and the counter section forgotten. -/
inductive Doing
  | createConnection
  | fork1
  | call1
  | fork2
  | call2
  | exited
  deriving DecidableEq, Repr

/-- The counter section counts as being about to fork. -/
def Code.doing : Code → Doing
  | .createConnection => .createConnection
  | .getCounters => .fork1
  | .getCounter1 _ => .fork1
  | .check _ _ => .fork1
  | .increment _ _ => .fork1
  | .fork1 _ => .fork1
  | .call1 _ => .call1
  | .fork2 _ => .fork2
  | .call2 _ => .call2
  | .exited _ => .exited

/-- A process as it is seen on its sockets. -/
structure ProcessView where
  doing : Doing
  pc : Pc End
  socks : End → Bool

/-- A pending write on the pipe is not seen. -/
def Process.view (p : Process) : ProcessView where
  doing := p.code.doing
  pc := p.fds.pc.untee
  socks := p.fds.socks

/-- The production side of a state. -/
@[ext] structure ProductionView where
  prods : ℕ
  sock : ℕ → End → Sock
  proc : ℕ → Pid → Option ProcessView

/-- The view of the production side. -/
def State.production (s : State) : ProductionView where
  prods := s.prods
  sock i := (s.conn (.prod i)).sock
  proc i pid := (s.process (.prod i) pid).map Process.view

namespace ProductionView

/-- Replace a process. -/
def setProc (v : ProductionView) (i : ℕ) (pid : Pid) (p : ProcessView) : ProductionView :=
  { v with proc := Function.update v.proc i (Function.update (v.proc i) pid (some p)) }

/-- Replace the sockets of a connection. -/
def setSock (v : ProductionView) (i : ℕ) (f : End → Sock) : ProductionView :=
  { v with sock := Function.update v.sock i f }

end ProductionView

section View

variable {s u : State} {i j : ℕ} {pid : Pid} {p : Process} {w : World End PipeId}

theorem production_setProcess :
    (s.setProcess (.prod i) pid p).production = s.production.setProc i pid p.view := by
  refine ProductionView.ext rfl (funext fun j => State.setProcess_sock s p)
    (funext fun j => funext fun pid' => ?_)
  by_cases hj : j = i
  · subst hj
    by_cases hpid : pid' = pid
    · subst hpid
      simp [State.production, ProductionView.setProc]
    · simp [State.production, ProductionView.setProc,
        State.setProcess_process_of_ne s p (Or.inr hpid), Function.update_of_ne hpid]
  · have hne : Conn.prod j ≠ Conn.prod i := by simpa using hj
    simp [State.production, ProductionView.setProc,
      State.setProcess_process_of_ne s p (Or.inl hne), Function.update_of_ne hj]

theorem production_setWorld :
    (s.setWorld (.prod i) w).production = s.production.setSock i w.sock := by
  refine ProductionView.ext rfl (funext fun j => ?_)
    (funext fun j => funext fun pid =>
      congrArg (Option.map Process.view) (State.setWorld_process s w))
  by_cases hj : j = i
  · subst hj
    simp [State.production, ProductionView.setSock]
  · have hne : Conn.prod j ≠ Conn.prod i := by simpa using hj
    simp [State.production, ProductionView.setSock, State.setWorld_sock_of_ne s w hne,
      Function.update_of_ne hj]

theorem Conn.prod_ne_clone (i j : ℕ) : Conn.prod i ≠ Conn.clone j := Conn.noConfusion

theorem production_setProcess_clone : (s.setProcess (.clone j) pid p).production = s.production :=
  ProductionView.ext rfl (funext fun _ => State.setProcess_sock s p)
    (funext fun i => funext fun _ =>
      congrArg (Option.map Process.view)
        (State.setProcess_process_of_ne s p (Or.inl (Conn.prod_ne_clone i j))))

theorem production_setWorld_clone : (s.setWorld (.clone j) w).production = s.production :=
  ProductionView.ext rfl
    (funext fun i => State.setWorld_sock_of_ne s w (Conn.prod_ne_clone i j))
    (funext fun _ => funext fun _ =>
      congrArg (Option.map Process.view) (State.setWorld_process s w))

/-- A process that moves without being seen. -/
theorem production_setProcess_same {q : Process} (hp : s.process (.prod i) pid = some p)
    (hq : q.view = p.view) : (s.setProcess (.prod i) pid q).production = s.production := by
  rw [production_setProcess, hq]
  have hproc : s.production.proc i pid = some p.view := by simp [State.production, hp]
  rw [ProductionView.setProc, ← hproc, Function.update_eq_self, Function.update_eq_self]

end View

/-! ### Hidden steps -/

/-- The counter section of a production handler is not seen. -/
theorem view_handleProdClient {p : Process} {m m' : Shm} {code : Code}
    (h : handleProdClient m p.code = some (m', code)) : (p.goto code).view = p.view := by
  unfold handleProdClient at h
  split at h
  · next hcode =>
    cases h
    simp [Process.goto, Process.view, hcode, Code.doing]
  · next c i hcode =>
    obtain ⟨⟨m₁, r⟩, -, heq⟩ := Option.map_eq_some_iff.mp h
    cases heq
    cases r <;> simp [Code.afterInc, Process.goto, Process.view, hcode, Code.doing]
  · cases h

/-- The connections of clones are not seen. -/
theorem production_accept_of_ne {cfg : Config} {s : State} {addr : String}
    (h : addr ≠ cfg.remoteHost) : (s.accept cfg addr).production = s.production := by
  have hconn (i j : ℕ) (x : Connection) :
      Function.update s.conn (.clone j) x (.prod i) = s.conn (.prod i) :=
    Function.update_of_ne (Conn.prod_ne_clone i j) x s.conn
  unfold State.accept
  rw [if_neg h]
  split_ifs
  · simp only [State.production, State.process, hconn]
  · rfl

theorem production_hidden {cfg : Config} {s t : State} {a : Act} (hs : Held s)
    (ha : productionSide cfg a = none) (h : (aggregator cfg).step s a = some t) :
    t.production = s.production := by
  match a, ha with
  | .accept addr, ha =>
    cases h
    refine production_accept_of_ne fun haddr => ?_
    simp [productionSide, haddr] at ha
  | .peer (.clone j) e ev, _ =>
    obtain ⟨x, -, rfl⟩ := step_peer h
    exact production_setWorld_clone
  | .count (.clone j), _ =>
    obtain ⟨p, m, code, -, -, rfl⟩ := step_count h
    exact production_setProcess_clone
  | .count (.prod i), _ =>
    obtain ⟨p, m, code, hp, hx, rfl⟩ := step_count h
    exact production_setProcess_same (s := { s with shm := m }) hp (view_handleProdClient hx)
  | .fork (.clone j) pid, _ =>
    obtain ⟨p, code, child, start, -, -, rfl⟩ := step_fork h
    exact production_setProcess_clone.trans production_setProcess_clone
  | .io (.clone j) pid c, _ =>
    obtain ⟨p, L, -, -, ⟨-, -, rfl⟩ | ⟨-, w, fds, -, rfl⟩⟩ := step_io h
    · exact production_setProcess_clone
    · exact production_setProcess_clone.trans production_setWorld_clone
  | .io (.prod i) pid (.write ok), _ =>
    obtain ⟨p, L, hp, hL, ⟨⟨n, hn⟩, -⟩ | ⟨-, w, fds, hstep, rfl⟩⟩ := step_io h
    · cases hn
    · have huntee : Proc.Untee Set.univ p.fds { p.fds with pc := p.fds.pc.untee } :=
        ⟨rfl, fun _ _ => rfl⟩
      obtain ⟨hsock, huntee', rfl⟩ := Loop.untee_write (fun q _ => hs.hasRd q) huntee hstep
      have hview : Process.view { p with fds := p.fds.goto .read } = p.view := by
        simp only [Process.view, Proc.goto_socks, ← huntee'.pc]
      rw [production_setProcess_same (p := p) (by simpa using hp) hview, production_setWorld, hsock]
      exact ProductionView.ext rfl (Function.update_eq_self _ _) rfl

/-! ### Visible steps -/

namespace ProcessView

/-- The view of a process that goes on in its code. -/
def goto (v : ProcessView) (d : Doing) : ProcessView :=
  if d = .exited then { doing := .exited, pc := .exited, socks := fun _ => false }
  else { v with doing := d }

/-- The view of a child. -/
def child (v : ProcessView) (d : Doing) : ProcessView := { v with doing := d, pc := .read }

/-- The view of a process after its call. -/
def afterCall (v : ProcessView) : ProcessView :=
  match v.doing with
  | .call1 => v.goto .fork2
  | .call2 => v.goto .exited
  | _ => v

/-- A process that does on its sockets what the view says. -/
def proc (v : ProcessView) : Proc End PipeId where
  pc := v.pc
  socks := v.socks
  rd _ := false
  wr _ := false

end ProcessView

/-- The loop that a production process runs, without the pipe. -/
def Doing.loop : Doing → Option (Loop End PipeId)
  | .call1 => some forwardData
  | .call2 => some (forwardDataToDestAndPipe ⟨0, by decide⟩).untee
  | _ => none

/-- What a `fork` does, as it is seen. -/
def Doing.fork : Pid → Doing → Option (Doing × Pid × Doing)
  | .main, .fork1 => some (.fork2, .first, .call1)
  | .main, .fork2 => some (.exited, .second, .call2)
  | .first, .fork2 => some (.exited, .firstSecond, .call2)
  | _, _ => none

section Visible

variable {cfg : Config} {s t u v : State} {a b c : Act} {i : ℕ} {pid : Pid} {p : Process}

theorem Process.goto_view (p : Process) (code : Code) :
    (p.goto code).view = p.view.goto code.doing := by
  cases code <;> simp [Process.goto, Process.view, ProcessView.goto, Code.doing, Proc.release,
    Pc.untee]

theorem Process.child_view (p : Process) (code : Code) :
    (p.child code).view = p.view.child code.doing := rfl

theorem Process.afterCall_view (p : Process) : p.afterCall.view = p.view.afterCall := by
  unfold Process.afterCall ProcessView.afterCall
  split
  · next c hcode =>
    rw [Process.goto_view]
    simp [Process.view, hcode, Code.doing]
  · next c hcode =>
    rw [Process.goto_view]
    simp [Process.view, hcode, Code.doing]
  · next h1 h2 =>
    have hd1 : p.view.doing ≠ .call1 := by
      cases hcode : p.code <;> simp_all [Process.view, Code.doing]
    have hd2 : p.view.doing ≠ .call2 := by
      cases hcode : p.code <;> simp_all [Process.view, Code.doing]
    split
    · next hd => exact absurd hd hd1
    · next hd => exact absurd hd hd2
    · rfl

theorem Code.fork_doing {code code' start : Code} {child : Pid}
    (h : code.fork pid = some (code', child, start)) :
    Doing.fork pid code.doing = some (code'.doing, child, start.doing) := by
  obtain ⟨c, ⟨rfl, rfl, rfl, rfl, rfl⟩ | ⟨rfl, rfl, rfl, ⟨rfl, rfl⟩ | ⟨rfl, rfl⟩⟩⟩ :=
    Code.fork_cases h <;> rfl

/-- The pipe that a production process writes to does not matter on its sockets. -/
theorem Process.loop_untee {L : Loop End PipeId} (h : p.loop (.prod i) = some L) :
    Doing.loop p.view.doing = some L.untee := by
  unfold Process.loop at h
  split at h
  · next c hcode =>
    cases h
    simp [Process.view, hcode, Code.doing, Doing.loop, firstCall, Loop.untee, forwardData]
  · next c hcode =>
    obtain ⟨q, -, rfl⟩ := Option.map_eq_some_iff.mp h
    simp [Process.view, hcode, Code.doing, Doing.loop, secondCall, Loop.untee,
      forwardDataToDestAndPipe]
  · cases h

theorem Process.loop_source {L : Loop End PipeId} (h : p.loop (.prod i) = some L) :
    ∃ e, L.source = .sock e := by
  unfold Process.loop at h
  split at h
  · cases h
    exact ⟨_, rfl⟩
  · obtain ⟨q, -, rfl⟩ := Option.map_eq_some_iff.mp h
    exact ⟨_, rfl⟩
  · cases h

theorem productionSide_eq (h : productionSide cfg a = some b) : a = b := by
  unfold productionSide at h
  split at h <;> first | exact Option.some.inj h | cases h | skip
  split_ifs at h
  exact Option.some.inj h

/-- The process of the same connection in a state with the same view. -/
theorem exists_process (hsu : s.production = u.production)
    (hp : s.process (.prod i) pid = some p) {q : Process}
    (hq : u.process (.prod i) pid = some q) : p.view = q.view := by
  have hproc := congrFun (congrFun (congrArg ProductionView.proc hsu) i) pid
  simpa [State.production, hp, hq] using hproc

theorem sock_eq (hsu : s.production = u.production) (i : ℕ) :
    (s.conn (.prod i)).sock = (u.conn (.prod i)).sock :=
  congrFun (congrArg ProductionView.sock hsu) i

/-- One step of a production process, other than a write on its pipe, as it is seen. -/
theorem io_view {n : ℕ} (h : (aggregator cfg).step s (.io (.prod i) pid (.run n)) = some t) :
    ∃ p, s.process (.prod i) pid = some p ∧
      (p.view.pc = .cleanup [] ∧ t.production = s.production.setProc i pid p.view.afterCall ∨
        p.view.pc ≠ .cleanup [] ∧ ∃ L w fds, Doing.loop p.view.doing = some L ∧
          L.step (fun _ => false) (fun _ => false)
            { sock := (s.conn (.prod i)).sock, pipe := fun _ => {} } p.view.proc (.run n) =
              some (w, fds) ∧
          t.production = (s.production.setSock i w.sock).setProc i pid
            { doing := p.view.doing, pc := fds.pc, socks := fds.socks }) := by
  obtain ⟨p, L, hp, hL, ⟨-, hpc, rfl⟩ | ⟨hpc, w, fds, hstep, rfl⟩⟩ := step_io h
  · refine ⟨p, hp, Or.inl ⟨by simp [Process.view, hpc, Pc.untee], ?_⟩⟩
    rw [production_setProcess, Process.afterCall_view]
  · refine ⟨p, hp, Or.inr ⟨?_, ?_⟩⟩
    · intro hnil
      cases hq : p.fds.pc <;> simp [Process.view, hq, Pc.untee] at hnil hpc
      exact hpc hnil
    · obtain ⟨e, hsrc⟩ := Process.loop_source hL
      have hwithin : L.Within Set.univ :=
        ⟨fun _ _ => trivial, fun _ _ => trivial, fun _ _ => trivial⟩
      have hagree : World.AgreeOn Set.univ (s.world (.prod i))
          { sock := (s.conn (.prod i)).sock, pipe := fun _ => {} } := fun _ _ => rfl
      have huntee : Proc.Untee Set.univ p.fds p.view.proc := ⟨rfl, fun _ _ => rfl⟩
      obtain ⟨w₀, fds₀, hstep₀, hw, hfds⟩ := Loop.untee_step hsrc hwithin
        (fun _ _ _ _ => trivial) (fun _ => false) (fun _ => false) hagree huntee hstep
      refine ⟨L.untee, w₀, fds₀, Process.loop_untee hL, hstep₀, ?_⟩
      have hsock : w.sock = w₀.sock := funext fun e => (hw e trivial).symm
      have hsocks : fds₀.socks = fds.socks := funext fun e => hfds.socks e trivial
      rw [production_setProcess, production_setWorld, hsock, hfds.pc, hsocks]
      rfl

/-- What a production process does with a step that is seen depends on the view only. -/
theorem io_visible {n : ℕ} (hsu : s.production = u.production)
    (hst : (aggregator cfg).step s (.io (.prod i) pid (.run n)) = some t)
    (huv : (aggregator cfg).step u (.io (.prod i) pid (.run n)) = some v) :
    t.production = v.production := by
  obtain ⟨p, hp, hcase⟩ := io_view hst
  obtain ⟨q, hq, hcase'⟩ := io_view huv
  rw [← exists_process hsu hp hq, ← sock_eq hsu i, ← hsu] at hcase'
  rcases hcase with ⟨hpc, ht⟩ | ⟨hpc, L, w, fds, hL, hstep, ht⟩ <;>
    rcases hcase' with ⟨hpc', hv⟩ | ⟨hpc', L', w', fds', hL', hstep', hv⟩
  · rw [ht, hv]
  · exact absurd hpc hpc'
  · exact absurd hpc' hpc
  · obtain rfl : L = L' := Option.some.inj (hL.symm.trans hL')
    obtain ⟨rfl, rfl⟩ := Prod.mk.inj (Option.some.inj (hstep.symm.trans hstep'))
    rw [ht, hv]

/-- The view of a state that has accepted a production connection. -/
theorem production_accept :
    (s.accept cfg cfg.remoteHost).production =
      { prods := s.production.prods + 1
        sock := Function.update s.production.sock s.production.prods fun _ => {}
        proc := Function.update s.production.proc s.production.prods fun pid =>
          if pid = .main then
            some { doing := .createConnection, pc := .read, socks := fun e => e = .client }
          else none } := by
  rw [State.accept, if_pos rfl]
  refine ProductionView.ext rfl (funext fun i => ?_) (funext fun i => funext fun pid => ?_)
  · by_cases hi : i = s.prods
    · subst hi
      simp [State.production, accepted]
    · simp [State.production, Function.update_of_ne hi,
        Function.update_of_ne (fun h => hi (Conn.prod.inj h) : Conn.prod i ≠ Conn.prod s.prods)]
  · by_cases hi : i = s.prods
    · subst hi
      cases pid <;> simp [State.production, State.process, accepted, Process.view, Code.doing,
        Pc.untee]
    · simp [State.production, State.process, Function.update_of_ne hi,
        Function.update_of_ne (fun h => hi (Conn.prod.inj h) : Conn.prod i ≠ Conn.prod s.prods)]

theorem production_visible (hsu : s.production = u.production)
    (ha : productionSide cfg a = some c) (hb : productionSide cfg b = some c)
    (hst : (aggregator cfg).step s a = some t) (huv : (aggregator cfg).step u b = some v) :
    t.production = v.production := by
  obtain rfl := productionSide_eq hb
  obtain rfl := productionSide_eq ha
  match a, ha with
  | .accept addr, ha =>
    obtain rfl : addr = cfg.remoteHost := by
      by_contra hne
      simp [productionSide, hne] at ha
    cases hst
    cases huv
    rw [production_accept, production_accept, hsu]
  | .peer (.prod i) e ev, _ =>
    obtain ⟨x, hx, rfl⟩ := step_peer hst
    obtain ⟨y, hy, rfl⟩ := step_peer huv
    rw [← sock_eq hsu i] at hy
    obtain rfl : x = y := Option.some.inj (hx.symm.trans hy)
    rw [production_setWorld, production_setWorld, hsu]
    simp only [World.setSock, State.world, sock_eq hsu i]
  | .connect i ok, _ =>
    obtain ⟨p, hp, -, rfl⟩ := step_connect hst
    obtain ⟨q, hq, -, rfl⟩ := step_connect huv
    have hview := exists_process hsu hp hq
    cases ok with
    | true =>
      have hpc : p.fds.pc.untee = q.fds.pc.untee := congrArg ProcessView.pc hview
      have hsocks : p.fds.socks = q.fds.socks := congrArg ProcessView.socks hview
      simp only [if_true, State.connected, production_setProcess, production_setWorld, hsu,
        World.setSock, State.world, sock_eq hsu i, Process.view, hpc, hsocks]
    | false =>
      simp only [Bool.false_eq_true, if_false, production_setProcess, Process.goto_view, hview,
        hsu]
  | .fork (.prod i) pid, _ =>
    obtain ⟨p, code, child, start, hp, hx, rfl⟩ := step_fork hst
    obtain ⟨q, code', child', start', hq, hy, rfl⟩ := step_fork huv
    have hview := exists_process hsu hp hq
    have hdoing : p.code.doing = q.code.doing := congrArg ProcessView.doing hview
    have hx' := Code.fork_doing hx
    rw [hdoing, Code.fork_doing hy] at hx'
    simp only [Option.some.injEq, Prod.mk.injEq] at hx'
    obtain ⟨hcode, rfl, hstart⟩ := hx'
    simp only [production_setProcess, Process.goto_view, Process.child_view, hview, hcode, hstart,
      hsu]
  | .io (.prod i) pid (.run n), _ => exact io_visible hsu hst huv

/-- **The production side unwinds.** -/
theorem production_unwinding (cfg : Config) :
    Machine.Unwinding (aggregator cfg) Held (productionSide cfg) State.production where
  inv hs h := hs.step h
  hidden hs ha h := production_hidden hs ha h
  visible _ _ hsu ha hb hst huv := production_visible hsu ha hb hst huv

end Visible

/-! ### The forwarders and the pipes -/

/-- The index of a production process is below the number of production connections, and it only
writes to a pipe in `forward_data_to_dest_and_pipe`. -/
structure Process.Sound (N : ℕ) (p : Process) : Prop where
  index : ∀ c, p.code.index = some c → c < N
  write : ∀ buf, p.fds.pc = .write buf → ∃ c, p.code = .call2 c

/-- The invariant of the production processes. -/
structure Indexed (s : State) : Prop where
  vacant : Vacant s
  incrementing : Incrementing s.shm s.phase
  sound : ∀ i pid p, s.process (.prod i) pid = some p → p.Sound s.prods

namespace Indexed

variable {cfg : Config} {s t : State} {a : Act} {i : ℕ} {p : Process}

theorem listening (cap : PipeId → ℕ) : Indexed (listening cap) where
  vacant := .listening cap
  incrementing := .createShmSeg
  sound _ _ _ h := by cases h

/-- An idle production handler reads a counter below the number of production connections. -/
theorem shm_lt (hs : Indexed s) (hp : s.process (.prod i) .main = some p)
    (hidle : s.phase (.prod i) = .idle) : s.shm.shm < s.prods := by
  refine (hs.incrementing.counted .first).lt (i := i) (fun j hj => ?_)
    (hs.vacant.accepted_of_process hp) ?_
  · have hnone := hs.vacant (.prod j) .main (Nat.not_lt.mpr hj)
    simp [settleds, Counter.conn, State.phase, hnone, Phase.settled]
  · simp [settleds, Counter.conn, hidle, Phase.settled]

/-- Replacing a process of a connection, by a sound one if that is a production connection. -/
theorem sound_setProcess {k : Conn} {pid : Pid}
    (hs : ∀ i pid p, s.process (.prod i) pid = some p → p.Sound s.prods)
    (hp : ∀ i, k = .prod i → p.Sound s.prods) :
    ∀ i pid' q, (s.setProcess k pid p).process (.prod i) pid' = some q → q.Sound s.prods := by
  intro i pid' q hq
  by_cases hk : Conn.prod i = k ∧ pid' = pid
  · obtain ⟨rfl, rfl⟩ := hk
    rw [State.setProcess_process_self] at hq
    exact Option.some.inj hq ▸ hp i rfl
  · rw [State.setProcess_process_of_ne s p (Classical.not_and_iff_not_or_not.mp hk)] at hq
    exact hs i pid' q hq

/-- A process that goes on in its code, outside of a call that writes to a pipe. -/
theorem sound_goto {N : ℕ} (hp : p.Sound N) {code : Code}
    (hindex : ∀ c, code.index = some c → c < N) (hcode : ∀ c, p.code ≠ .call2 c) :
    (p.goto code).Sound N := by
  refine ⟨by rwa [Process.goto_code], fun buf hbuf => ?_⟩
  have hpc : p.fds.pc = .write buf := by
    cases code <;> simp_all [Process.goto]
  obtain ⟨c, hc⟩ := hp.write buf hpc
  exact absurd hc (hcode c)

theorem sound_child {N c : ℕ} (hc : c < N) {code : Code} (hcode : code.index = some c) :
    (p.child code).Sound N := by
  refine ⟨fun d hd => ?_, fun buf hbuf => by cases hbuf⟩
  rw [Process.child, hcode, Option.some.injEq] at hd
  exact hd ▸ hc

theorem sound_afterCall {N : ℕ} (hp : p.Sound N) : p.afterCall.Sound N := by
  unfold Process.afterCall
  split
  · next c hcode =>
    exact sound_goto hp (fun d hd => hp.index d (by rw [hcode]; exact hd)) (by simp [hcode])
  · next c hcode =>
    exact ⟨fun d hd => hp.index d (by rw [hcode]; exact hd), fun buf hbuf => by cases hbuf⟩
  · exact hp

theorem sound_count (hs : Indexed s) {m : Shm} {code : Code}
    (hp : s.process (.prod i) .main = some p)
    (h : handleProdClient s.shm p.code = some (m, code)) : (p.goto code).Sound s.prods := by
  have hsound := hs.sound i .main p hp
  unfold handleProdClient at h
  split at h
  · next hcode =>
    cases h
    refine sound_goto hsound (fun c hc => ?_) (by simp [hcode])
    cases hc
    exact hs.shm_lt hp (by rw [State.phase_of_process hp, hcode]; rfl)
  · next c inc hcode =>
    obtain ⟨⟨m₁, r⟩, -, heq⟩ := Option.map_eq_some_iff.mp h
    cases heq
    refine sound_goto hsound (fun d hd => hsound.index d ?_) (by simp [hcode])
    rw [hcode]
    cases r <;> exact hd
  · cases h

/-- A new handler has no index yet. -/
theorem sound_accept (hs : Indexed s) (addr : String) :
    ∀ i pid p, (s.accept cfg addr).process (.prod i) pid = some p →
      p.Sound (s.accept cfg addr).prods := by
  intro i pid p hp
  unfold State.accept at hp ⊢
  split_ifs at hp ⊢
  · by_cases hi : i = s.prods
    · subst hi
      simp only [State.process, Function.update_self, accepted] at hp
      split at hp
      · cases hp
        exact ⟨fun c hc => (by cases hc), fun buf hbuf => (by cases hbuf)⟩
      · cases hp
    · have hne : Conn.prod i ≠ Conn.prod s.prods := by simpa using hi
      simp only [State.process, Function.update_of_ne hne] at hp
      have hsound := hs.sound i pid p hp
      exact ⟨fun c hc => Nat.lt_succ_of_lt (hsound.index c hc), hsound.write⟩
  · simp only [State.process, Function.update_of_ne (Conn.prod_ne_clone i s.clones)] at hp
    exact hs.sound i pid p hp
  · exact hs.sound i pid p hp

/-- A child has the index of its parent. -/
theorem sound_fork (hs : Indexed s) {pid child : Pid} {code start : Code}
    (hp : s.process (.prod i) pid = some p) (hx : p.code.fork pid = some (code, child, start)) :
    (p.goto code).Sound s.prods ∧ (p.child start).Sound s.prods := by
  have hsound := hs.sound i pid p hp
  obtain ⟨c, ⟨-, hcode, rfl, -, rfl⟩ | ⟨hcode, rfl, rfl, -⟩⟩ := Code.fork_cases hx <;>
    have hc : c < s.prods := hsound.index c (by rw [hcode]; rfl)
  · exact ⟨sound_goto hsound (fun d hd => by cases hd; exact hc) (by simp [hcode]),
      sound_child hc rfl⟩
  · exact ⟨sound_goto hsound (fun d hd => by cases hd; exact hc) (by simp [hcode]),
      sound_child hc rfl⟩

theorem sound_step (hs : Indexed s) (h : (aggregator cfg).step s a = some t) :
    ∀ i pid p, t.process (.prod i) pid = some p → p.Sound t.prods := by
  cases a with
  | accept addr =>
    cases h
    exact hs.sound_accept addr
  | peer k e ev =>
    obtain ⟨x, -, rfl⟩ := step_peer h
    intro i pid p hp
    rw [State.setWorld_process] at hp
    exact hs.sound i pid p hp
  | connect i ok =>
    obtain ⟨p, hp, hcode, rfl⟩ := step_connect h
    have hsound := hs.sound i .main p hp
    cases ok with
    | true =>
      refine sound_setProcess (s := s.setWorld _ _) (fun i pid p hp => ?_) fun _ _ => ?_
      · rw [State.setWorld_process] at hp
        exact hs.sound i pid p hp
      · refine ⟨fun c hc => (by cases hc), fun buf hbuf => ?_⟩
        obtain ⟨c, hc⟩ := hsound.write buf hbuf
        simp [hcode] at hc
    | false =>
      exact sound_setProcess hs.sound fun _ _ =>
        sound_goto hsound (fun c hc => (by cases hc)) (by simp [hcode])
  | count k =>
    obtain ⟨p, m, code, hp, hx, rfl⟩ := step_count h
    refine sound_setProcess (s := { s with shm := m }) hs.sound fun i hi => ?_
    subst hi
    exact hs.sound_count hp hx
  | fork k pid =>
    obtain ⟨p, code, child, start, hp, hx, rfl⟩ := step_fork h
    have hparent (i : ℕ) (hi : k = .prod i) :
        (p.goto code).Sound s.prods ∧ (p.child start).Sound s.prods :=
      hs.sound_fork (hi ▸ hp) hx
    exact sound_setProcess (sound_setProcess hs.sound fun i hi => (hparent i hi).1)
      fun i hi => (hparent i hi).2
  | io k pid c =>
    obtain ⟨p, L, hp, hL, ⟨-, -, rfl⟩ | ⟨-, w, fds, hstep, rfl⟩⟩ := step_io h
    · exact sound_setProcess hs.sound fun i hi => sound_afterCall (hs.sound i pid p (hi ▸ hp))
    · refine sound_setProcess (s := s.setWorld k w) (fun i pid p hp => ?_) fun i hi => ?_
      · rw [State.setWorld_process] at hp
        exact hs.sound i pid p hp
      · subst hi
        refine ⟨(hs.sound i pid p hp).index, fun buf hbuf => ?_⟩
        obtain ⟨q, hq⟩ := Loop.tee_of_step_write hbuf hstep
        unfold Process.loop at hL
        split at hL
        · cases hL
          cases hq
        · next c hcode => exact ⟨c, hcode⟩
        · cases hL

theorem step (hs : Indexed s) (h : (aggregator cfg).step s a = some t) : Indexed t := by
  refine ⟨hs.vacant.step h, ?_, hs.sound_step h⟩
  rcases step_phase hs.vacant h with ⟨k, ψ, -, hstep, hphase⟩ | ⟨-, hshm, hphase⟩
  · exact hphase ▸ hs.incrementing.step hstep
  · rw [hshm, hphase]
    exact hs.incrementing

end Indexed

/-- The state with other pipes and other clone connections. -/
def State.withClones (s : State) (pipe : PipeId → Pipe) (clones : ℕ) (conn : ℕ → Connection) :
    State :=
  { s with
    pipe := pipe
    clones := clones
    conn := fun
      | .prod i => s.conn (.prod i)
      | .clone j => conn j }

/-- What the clone side can not do to production in a state: no step outside of the production side
touches a production or backend socket; whether a production process can take a step on its
sockets depends neither on the pipes nor on the clone connections; a production forwarder that is
about to write to its pipe can do so whatever is in it, and goes on with its loop; and the pipe of
a production connection exists. -/
structure Undisturbed (cfg : Config) (s : State) : Prop where
  sock : ∀ a t, productionSide cfg a = none → (aggregator cfg).step s a = some t →
    ∀ i, (t.conn (.prod i)).sock = (s.conn (.prod i)).sock
  run : ∀ i pid n pipe clones conn,
    ((aggregator cfg).step s (.io (.prod i) pid (.run n))).isSome =
      ((aggregator cfg).step (s.withClones pipe clones conn) (.io (.prod i) pid (.run n))).isSome
  write : ∀ i pid p buf pipe clones conn, s.process (.prod i) pid = some p →
    p.fds.pc = .write buf →
    ∃ t, (aggregator cfg).step (s.withClones pipe clones conn) (.io (.prod i) pid (.write false)) =
        some t ∧ t.process (.prod i) pid = some { p with fds := p.fds.goto .read }
  pipe : ∀ i pid p c, s.process (.prod i) pid = some p → p.code = .call2 c → (pipesArr c).isSome

section Undisturbed

variable {cfg : Config} {s : State}

theorem Indexed.pipesArr_isSome (hs : Indexed s) (hle : s.prods ≤ numConns) {i c : ℕ} {pid : Pid}
    {p : Process} (hp : s.process (.prod i) pid = some p) (hcode : p.code = .call2 c) :
    (pipesArr c).isSome := by
  have hc := (hs.sound i pid p hp).index c (by rw [hcode]; rfl)
  rw [pipesArr, dif_pos (hc.trans_le hle)]
  rfl

theorem undisturbed_of_indexed (hheld : Held s) (hs : Indexed s) (hle : s.prods ≤ numConns) :
    Undisturbed cfg s where
  sock := fun a t ha h i => (sock_eq (production_hidden hheld ha h).symm i).symm
  run := by
    intro i pid n pipe clones conn
    have hprocess : (s.withClones pipe clones conn).process (.prod i) pid =
        s.process (.prod i) pid := rfl
    have hw : World.AgreeOn Set.univ (s.world (.prod i))
        ((s.withClones pipe clones conn).world (.prod i)) := fun _ _ => rfl
    cases hp : s.process (.prod i) pid with
    | none => simp [aggregator, State.io, hprocess, hp]
    | some p =>
      cases hL : p.loop (.prod i) with
      | none => simp [aggregator, State.io, hprocess, hp, hL]
      | some L =>
        obtain ⟨e, hsrc⟩ := Process.loop_source hL
        have hwithin : L.Within Set.univ :=
          ⟨fun _ _ => trivial, fun _ _ => trivial, fun _ _ => trivial⟩
        have hstep : (L.step s.hasRd s.hasWr (s.world (.prod i)) p.fds (.run n)).isSome =
            (L.step (s.withClones pipe clones conn).hasRd (s.withClones pipe clones conn).hasWr
              ((s.withClones pipe clones conn).world (.prod i)) p.fds (.run n)).isSome :=
          Loop.step_run_isSome hsrc hwithin _ _ n hw
        simp only [aggregator, State.io, hprocess, hp, hL, Option.bind_some]
        split_ifs
        · rfl
        · rw [Option.isSome_map, Option.isSome_map, hstep]
  write := by
    intro i pid p buf pipe clones conn hp hpc
    obtain ⟨c, hcode⟩ := (hs.sound i pid p hp).write buf hpc
    obtain ⟨q, hq⟩ := Option.isSome_iff_exists.mp (hs.pipesArr_isSome hle hp hcode)
    have hprocess : (s.withClones pipe clones conn).process (.prod i) pid = some p := hp
    have hL : p.loop (.prod i) = some (forwardDataToDestAndPipe q) := by
      simp [Process.loop, hcode, hq, secondCall]
    have hheld' : Held (s.withClones pipe clones conn) := ⟨hheld.rd, hheld.wr⟩
    have hwrite (x : Pipe) : p.fds.write q buf false x = some x := by simp [Proc.write]
    have hstep : (forwardDataToDestAndPipe q).step (s.withClones pipe clones conn).hasRd
        (s.withClones pipe clones conn).hasWr ((s.withClones pipe clones conn).world (.prod i))
        p.fds (.write false) =
        some (((s.withClones pipe clones conn).world (.prod i)).setPipe q (pipe q),
          p.fds.goto .read) := by
      have hpipe : ((s.withClones pipe clones conn).world (.prod i)).pipe q = pipe q := rfl
      simp [Loop.step, hpc, forwardDataToDestAndPipe, hheld'.hasRd q, hwrite, hpipe]
    have hio : (aggregator cfg).step (s.withClones pipe clones conn)
        (.io (.prod i) pid (.write false)) = some (((s.withClones pipe clones conn).setWorld
          (.prod i) (((s.withClones pipe clones conn).world (.prod i)).setPipe q
            (pipe q))).setProcess (.prod i) pid { p with fds := p.fds.goto .read }) := by
      simp [aggregator, State.io, hprocess, hL, hpc, hstep]
    exact ⟨_, hio, State.setProcess_process_self _ _⟩
  pipe := fun i pid p c hp hcode => hs.pipesArr_isSome hle hp hcode

end Undisturbed

/-- **Isolation of production from the clones.** Take any two runs of the aggregator with at most
`NUM_CONNS` production connections in which the production containers and the backend behave alike
and the production processes take their steps in the same order, whatever the clones do and
whatever the capacities of the pipes. Then the same bytes and shutdowns have been issued on every
production and every backend socket, in the same order, and the clone side disturbs production in
neither. -/
theorem production_isolation {cfg : Config} {cap₁ cap₂ : PipeId → ℕ} {as₁ as₂ : List Act}
    {s₁ s₂ : State} (hrun₁ : (aggregator cfg).run (listening cap₁) as₁ = some s₁)
    (hrun₂ : (aggregator cfg).run (listening cap₂) as₂ = some s₂)
    (hsame : as₁.filterMap (productionSide cfg) = as₂.filterMap (productionSide cfg))
    (hle : s₁.prods ≤ numConns) :
    (∀ i e, ((s₁.conn (.prod i)).sock e).issued = ((s₂.conn (.prod i)).sock e).issued) ∧
      Undisturbed cfg s₁ ∧ Undisturbed cfg s₂ := by
  have hinit : (listening cap₁).production = (listening cap₂).production := rfl
  have hview := (production_unwinding cfg).two_run (.listening cap₁) (.listening cap₂) hinit hrun₁
    hrun₂ hsame
  have hreach {cap : PipeId → ℕ} {as : List Act} {s : State}
      (hrun : (aggregator cfg).run (listening cap) as = some s) : Held s ∧ Indexed s :=
    Machine.invariant_of_step (I := fun s => Held s ∧ Indexed s)
      (fun _ _ _ hs h => ⟨hs.1.step h, hs.2.step h⟩) ⟨.listening cap, .listening cap⟩ hrun
  have hprods : s₁.prods = s₂.prods := congrArg ProductionView.prods hview
  refine ⟨fun i e => ?_, undisturbed_of_indexed (hreach hrun₁).1 (hreach hrun₁).2 hle,
    undisturbed_of_indexed (hreach hrun₂).1 (hreach hrun₂).2 (hprods ▸ hle)⟩
  rw [sock_eq hview i]

/-- A production connection whose response enters the pipe, and a clone that gets it. -/
def replayed : List Act :=
  takeZero ++ [.fork (.prod 0) .main, .fork (.prod 0) .main, .peer (.prod 0) .client (.drain 8),
    .peer (.prod 0) .remote (.deliver [7, 8]), .io (.prod 0) .second (.run 2),
    .io (.prod 0) .second (.run 2), .io (.prod 0) .second (.write true), .accept "10.0.0.2",
    .count (.clone 0), .count (.clone 0), .count (.clone 0), .count (.clone 0), .count (.clone 0),
    .count (.clone 0), .count (.clone 0), .fork (.clone 0) .main, .fork (.clone 0) .main,
    .peer (.clone 0) .client (.drain 8), .io (.clone 0) .second (.run 2),
    .io (.clone 0) .second (.run 2)]

/-- The same with pipes that have no room and two clones that come first and get nothing. -/
def notReplayed : List Act :=
  [.accept "10.0.0.2", .accept "10.0.0.2", .count (.clone 1), .count (.clone 1),
    .count (.clone 1)] ++
  takeZero ++ [.fork (.prod 0) .main, .fork (.prod 0) .main, .peer (.prod 0) .client (.drain 8),
    .peer (.clone 0) .client .reset, .peer (.prod 0) .remote (.deliver [7, 8]),
    .io (.prod 0) .second (.run 2), .io (.prod 0) .second (.run 2),
    .io (.prod 0) .second (.write false)]

theorem production_isolation_replayed :
    ∃ s₁ s₂, (aggregator twoHosts).run (listening fun _ => 2) replayed = some s₁ ∧
      (aggregator twoHosts).run (listening fun _ => 0) notReplayed = some s₂ ∧
      (∀ i e, ((s₁.conn (.prod i)).sock e).issued = ((s₂.conn (.prod i)).sock e).issued) ∧
      Undisturbed twoHosts s₁ ∧ Undisturbed twoHosts s₂ := by
  have hprods : ((aggregator twoHosts).run (listening fun _ => 2) replayed).map State.prods =
      some 1 := by decide
  obtain ⟨s₁, h₁, hs₁⟩ := Option.map_eq_some_iff.mp hprods
  obtain ⟨s₂, h₂⟩ := Option.isSome_iff_exists.mp (by decide :
    ((aggregator twoHosts).run (listening fun _ => 0) notReplayed).isSome)
  exact ⟨s₁, s₂, h₁, h₂, production_isolation h₁ h₂ (by decide) (by rw [hs₁]; decide)⟩

end Parikshan.Aggregator
