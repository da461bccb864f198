import Parikshan.Aggregator.Counters
import Parikshan.Machine.Basic
import Parikshan.Posix.Forwarding

/-!
# The network aggregator

`server_loop` of `proxyAgg.c` creates the pipes and forks one process for every connection it
accepts; `handle_client` dispatches on the peer address. A connection from `remote_host` is a
production connection: its handler connects to the backend, takes an index from the first counter
and forks two forwarders, the second of which copies the responses into the pipe of that index. A
connection from `duplicate_host` is a clone connection: its handler takes an index from the second
counter, gives up if that is not below the first counter, and forks a process that drops what the
clone sends and one that sends it the contents of the pipe.

A forked child that returns from its function falls through to the code behind the `fork`, as the
source has it: the first child forks again. The server never closes a pipe, and every process
inherits both ends of all pipes. `fork` is taken to succeed, and diagnostics are left out.

## Main definitions

* `forwardData`, `forwardDataToDestAndPipe`, `readDataAndDrop`, `readPipeDest`: the loops.
* `handleProdClient`, `handleCloneClient`: the counter sections of the two handlers.
* `aggregator`: the machine of the server, all handlers, their children and all peers.
-/

namespace Parikshan.Aggregator

open Posix

/-- `NUM_CONNS`. -/
def numConns : ℕ := 100

/-- `BUF_SIZE`. -/
def bufSize : ℕ := 1024

/-- A slot of `pipes_arr`. -/
abbrev PipeId := Fin numConns

/-- `pipes_arr[c]`; behind the end of the table there is none. -/
def pipesArr (c : ℕ) : Option PipeId := if h : c < numConns then some ⟨c, h⟩ else none

/-- The accepted connections, numbered in the order of `accept`. -/
inductive Conn
  | prod (i : ℕ)
  | clone (j : ℕ)
  deriving DecidableEq, Repr

/-- The sockets of a handler: `client_sock`, and for production `remote_sock`. -/
inductive End
  | client
  | remote
  deriving DecidableEq, Repr

/-- The processes of a connection: the handler, its children of the first and the second `fork`,
and the child that the first child forks when it falls through. -/
inductive Pid
  | main
  | first
  | second
  | firstSecond
  deriving DecidableEq, Repr

/-! ### The loops -/

/-- `forward_data(client_sock, remote_sock)`, lines 325–341. -/
def forwardData : Loop End PipeId where
  entry := .read
  size := bufSize
  source := .sock .client
  dest := some .remote
  tee := none
  cleanup := [.shutdown .remote, .close .remote, .shutdown .client, .close .client]

/-- `forward_data_to_dest_and_pipe(remote_sock, client_sock, pipe)`, lines 343–362: a failed write
is only reported. -/
def forwardDataToDestAndPipe (pipe : PipeId) : Loop End PipeId where
  entry := .read
  size := bufSize
  source := .sock .remote
  dest := some .client
  tee := some pipe
  cleanup := [.shutdown .client, .close .client, .shutdown .remote, .close .remote]

/-- `read_data_and_drop(client_sock)`, lines 388–399. -/
def readDataAndDrop : Loop End PipeId where
  entry := .read
  size := bufSize
  source := .sock .client
  dest := none
  tee := none
  cleanup := [.shutdown .client, .close .client]

/-- `read_pipe_dest(client_sock, pipe)`, lines 401–416. -/
def readPipeDest (pipe : PipeId) : Loop End PipeId where
  entry := .read
  size := bufSize
  source := .pipe pipe
  dest := some .client
  tee := none
  cleanup := [.shutdown .client, .close .client]

/-- What the child of the first `fork` calls. -/
def firstCall : Conn → Loop End PipeId
  | .prod _ => forwardData
  | .clone _ => readDataAndDrop

/-- What the child of the second `fork` calls. -/
def secondCall : Conn → PipeId → Loop End PipeId
  | .prod _, q => forwardDataToDestAndPipe q
  | .clone _, q => readPipeDest q

/-! ### The handlers -/

/-- Where a process is in `handle_prod_client` or `handle_clone_client`, with its local variables:
`c` is the index that production takes or the clone's `c2`. A process that has exited keeps its
index for reference. -/
inductive Code
  | createConnection
  | getCounters
  | getCounter1 (c2 : ℕ)
  | check (c2 c1 : ℕ)
  | increment (c : ℕ) (i : Inc)
  | fork1 (c : ℕ)
  | call1 (c : ℕ)
  | fork2 (c : ℕ)
  | call2 (c : ℕ)
  | exited (c : Option ℕ)
  deriving DecidableEq, Repr

/-- The index into `pipes_arr` that a process goes by: a production handler has it once it has
read the counter, a clone handler once it has passed the check. -/
def Code.index : Code → Option ℕ
  | .createConnection => none
  | .getCounters => none
  | .getCounter1 _ => none
  | .check _ _ => none
  | .increment c _ => some c
  | .fork1 c => some c
  | .call1 c => some c
  | .fork2 c => some c
  | .call2 c => some c
  | .exited c => c

/-- A handler goes on with the rest of an increment, or behind it. -/
def Code.afterInc (c : ℕ) : Option Inc → Code
  | some i => .increment c i
  | none => .fork1 c

/-- The counter section of `handle_prod_client`, lines 311–312. -/
def handleProdClient (m : Shm) : Code → Option (Shm × Code)
  | .getCounters => some (m, .increment m.getShmCounter .p)
  | .increment c i => (m.incrementShmCounter i).map fun x => (x.1, Code.afterInc c x.2)
  | _ => none

/-- The counter section of `handle_clone_client`, lines 369–376. -/
def handleCloneClient (m : Shm) : Code → Option (Shm × Code)
  | .getCounters => some (m, .getCounter1 m.getShmCounter2)
  | .getCounter1 c2 => some (m, .check c2 m.getShmCounter)
  | .check c2 c1 => some (m, if c2 ≥ c1 then .exited none else .increment c2 .p)
  | .increment c i => (m.incrementShmCounter2 i).map fun x => (x.1, Code.afterInc c x.2)
  | _ => none

/-- What a `fork` leaves to the parent, which process it creates and where that starts. -/
def Code.fork : Pid → Code → Option (Code × Pid × Code)
  | .main, .fork1 c => some (.fork2 c, .first, .call1 c)
  | .main, .fork2 c => some (.exited (some c), .second, .call2 c)
  | .first, .fork2 c => some (.exited (some c), .firstSecond, .call2 c)
  | _, _ => none

/-- The counter section of a connection's handler. -/
def handleCounters : Conn → Shm → Code → Option (Shm × Code)
  | .prod _ => handleProdClient
  | .clone _ => handleCloneClient

/-- A process with its descriptors; the position in the loop it runs is with them. -/
structure Process where
  code : Code
  fds : Proc End PipeId

namespace Process

/-- The process goes on at `code`; if it exits, its descriptors are closed. -/
def goto (p : Process) : Code → Process
  | .exited c => { code := .exited c, fds := Proc.release .exited }
  | code => { p with code := code }

/-- The child of a `fork`, which calls a function that starts with a read. -/
def child (p : Process) (code : Code) : Process :=
  { code := code, fds := p.fds.goto .read }

/-- The loop that the process runs. -/
def loop (k : Conn) (p : Process) : Option (Loop End PipeId) :=
  match p.code with
  | .call1 _ => some (firstCall k)
  | .call2 c => (pipesArr c).map (secondCall k)
  | _ => none

/-- The code behind the call: the child of the first `fork` comes to the second one. -/
def afterCall (p : Process) : Process :=
  match p.code with
  | .call1 c => p.goto (.fork2 c)
  | .call2 c => p.goto (.exited (some c))
  | _ => p

end Process

/-! ### The machine -/

/-- The sockets and the processes of a connection. -/
structure Connection where
  sock : End → Sock
  proc : Pid → Option Process

/-- The pipe ends that the server holds. -/
structure Server where
  rd : PipeId → Bool
  wr : PipeId → Bool

/-- The state of the aggregator, with the numbers of connections accepted so far. -/
structure State where
  shm : Shm
  pipe : PipeId → Pipe
  server : Server
  prods : ℕ
  clones : ℕ
  conn : Conn → Connection

/-- The hosts given on the command line. -/
structure Config where
  remoteHost : String
  duplicateHost : String

/-- What can happen: the server accepts a connection from an address, a peer acts on a socket, a
backend connect returns, a handler takes a step of its counter section, a process forks, a process
takes a step of its loop. -/
inductive Act
  | accept (addr : String)
  | peer (k : Conn) (e : End) (ev : Sock.Peer)
  | connect (i : ℕ) (ok : Bool)
  | count (k : Conn)
  | fork (k : Conn) (pid : Pid)
  | io (k : Conn) (pid : Pid) (c : Choice)
  deriving DecidableEq, Repr

namespace State

variable (s : State)

/-- A process of a connection. -/
def process (k : Conn) (pid : Pid) : Option Process := (s.conn k).proc pid

/-- Replace a process. -/
def setProcess (k : Conn) (pid : Pid) (p : Process) : State :=
  { s with
    conn := Function.update s.conn k
      { s.conn k with proc := Function.update (s.conn k).proc pid (some p) } }

/-- The sockets of a connection and all pipes. -/
def world (k : Conn) : World End PipeId := { sock := (s.conn k).sock, pipe := s.pipe }

/-- Replace the sockets of a connection and the pipes. -/
def setWorld (k : Conn) (w : World End PipeId) : State :=
  { s with
    pipe := w.pipe
    conn := Function.update s.conn k { s.conn k with sock := w.sock } }

/-- The connections accepted so far. -/
def connections : List Conn :=
  (List.range s.prods).map .prod ++ (List.range s.clones).map .clone

/-- Some process of a connection satisfies a predicate. -/
def anyProcess (f : Process → Bool) : Bool :=
  s.connections.any fun k =>
    [Pid.main, .first, .second, .firstSecond].any fun pid => (s.process k pid).any f

/-- Some process has the read end of a pipe open. -/
def hasRd (q : PipeId) : Bool := s.server.rd q || s.anyProcess (·.fds.rd q)

/-- Some process has the write end of a pipe open. -/
def hasWr (q : PipeId) : Bool := s.server.wr q || s.anyProcess (·.fds.wr q)

end State

/-- A connection whose handler has just been forked. -/
def accepted (server : Server) (code : Code) : Connection where
  sock _ := {}
  proc
    | .main => some
      { code := code
        fds := { pc := .read, socks := fun e => e = .client, rd := server.rd, wr := server.wr } }
    | _ => none

namespace State

/-- `server_loop` accepts a connection, and its child dispatches on the address. -/
def accept (cfg : Config) (s : State) (addr : String) : State :=
  if addr = cfg.remoteHost then
    { s with
      prods := s.prods + 1
      conn := Function.update s.conn (.prod s.prods) (accepted s.server .createConnection) }
  else if addr = cfg.duplicateHost then
    { s with
      clones := s.clones + 1
      conn := Function.update s.conn (.clone s.clones) (accepted s.server .getCounters) }
  else s

/-- `create_connection` has succeeded: the handler has a fresh socket to the backend. -/
def connected (s : State) (i : ℕ) (p : Process) : State :=
  (s.setWorld (.prod i) ((s.world (.prod i)).setSock .remote {})).setProcess (.prod i) .main
    { code := .getCounters
      fds := { p.fds with socks := Function.update p.fds.socks .remote true } }

/-- `create_connection` returns to `handle_prod_client`. -/
def connect (s : State) (i : ℕ) (ok : Bool) : Option State :=
  (s.process (.prod i) .main).bind fun p =>
    match p.code with
    | .createConnection =>
      some (if ok then s.connected i p else s.setProcess (.prod i) .main (p.goto (.exited none)))
    | _ => none

/-- A step of a handler's counter section. -/
def count (s : State) (k : Conn) : Option State :=
  (s.process k .main).bind fun p =>
    (handleCounters k s.shm p.code).map fun x =>
      ({ s with shm := x.1 }).setProcess k .main (p.goto x.2)

/-- A `fork` of a handler, or of its first child that has fallen through. -/
def fork (s : State) (k : Conn) (pid : Pid) : Option State :=
  (s.process k pid).bind fun p =>
    (p.code.fork pid).map fun x =>
      (s.setProcess k pid (p.goto x.1)).setProcess k x.2.1 (p.child x.2.2)

/-- A step of the loop that a process runs, or its return from the loop. -/
def io (s : State) (k : Conn) (pid : Pid) (c : Choice) : Option State :=
  (s.process k pid).bind fun p =>
    (p.loop k).bind fun L =>
      if p.fds.pc = .cleanup [] then
        match c with
        | .run _ => some (s.setProcess k pid p.afterCall)
        | .write _ => none
      else
        (L.step s.hasRd s.hasWr (s.world k) p.fds c).map fun x =>
          (s.setWorld k x.1).setProcess k pid { p with fds := x.2 }

/-- A peer acts on a socket. -/
def peer (s : State) (k : Conn) (e : End) (ev : Sock.Peer) : Option State :=
  (((s.conn k).sock e).peer ev).map fun x => s.setWorld k ((s.world k).setSock e x)

end State

/-- The machine of the aggregator. -/
def aggregator (cfg : Config) : Machine State Act where
  step s
    | .accept addr => some (s.accept cfg addr)
    | .peer k e ev => s.peer k e ev
    | .connect i ok => s.connect i ok
    | .count k => s.count k
    | .fork k pid => s.fork k pid
    | .io k pid c => s.io k pid c

/-- The aggregator after `create_pipes`, with pipes of any capacities. -/
def listening (cap : PipeId → ℕ) : State where
  shm := .createShmSeg
  pipe q := { cap := cap q }
  server := { rd := fun _ => true, wr := fun _ => true }
  prods := 0
  clones := 0
  conn _ := { sock := fun _ => {}, proc := fun _ => none }

/-! ### Processes and sockets after an update -/

section Updates

variable (s : State) {k k' : Conn} {pid pid' : Pid} (p : Process) (w : World End PipeId)

namespace State

@[simp] theorem setProcess_process_self : (s.setProcess k pid p).process k pid = some p := by
  simp [setProcess, process]

theorem setProcess_process_of_ne (h : k' ≠ k ∨ pid' ≠ pid) :
    (s.setProcess k pid p).process k' pid' = s.process k' pid' := by
  by_cases hk : k' = k
  · subst hk
    simp [setProcess, process, Function.update_of_ne (h.resolve_left (not_not_intro rfl))]
  · simp [setProcess, process, Function.update_of_ne hk]

@[simp] theorem setProcess_sock : ((s.setProcess k pid p).conn k').sock = (s.conn k').sock := by
  by_cases hk : k' = k
  · subst hk
    simp [setProcess]
  · simp [setProcess, Function.update_of_ne hk]

@[simp] theorem setProcess_world : (s.setProcess k pid p).world k' = s.world k' := by
  simp only [world, setProcess_sock]
  rfl

@[simp] theorem setProcess_shm : (s.setProcess k pid p).shm = s.shm := rfl

@[simp] theorem setProcess_pipe : (s.setProcess k pid p).pipe = s.pipe := rfl

@[simp] theorem setProcess_server : (s.setProcess k pid p).server = s.server := rfl

@[simp] theorem setProcess_prods : (s.setProcess k pid p).prods = s.prods := rfl

@[simp] theorem setProcess_clones : (s.setProcess k pid p).clones = s.clones := rfl

@[simp] theorem setWorld_process : (s.setWorld k w).process k' pid = s.process k' pid := by
  by_cases hk : k' = k
  · subst hk
    simp [setWorld, process]
  · simp [setWorld, process, Function.update_of_ne hk]

@[simp] theorem setWorld_sock_self : ((s.setWorld k w).conn k).sock = w.sock := by
  simp [setWorld]

theorem setWorld_sock_of_ne (h : k' ≠ k) :
    ((s.setWorld k w).conn k').sock = (s.conn k').sock := by
  simp [setWorld, Function.update_of_ne h]

@[simp] theorem setWorld_shm : (s.setWorld k w).shm = s.shm := rfl

@[simp] theorem setWorld_pipe : (s.setWorld k w).pipe = w.pipe := rfl

@[simp] theorem setWorld_server : (s.setWorld k w).server = s.server := rfl

@[simp] theorem setWorld_prods : (s.setWorld k w).prods = s.prods := rfl

@[simp] theorem setWorld_clones : (s.setWorld k w).clones = s.clones := rfl

end State

@[simp] theorem Process.goto_code (code : Code) : (p.goto code).code = code := by
  cases code <;> rfl

end Updates

/-- The server holds both ends of every pipe. -/
structure Held (s : State) : Prop where
  rd : ∀ q, s.server.rd q = true
  wr : ∀ q, s.server.wr q = true

theorem Held.listening (cap : PipeId → ℕ) : Held (listening cap) := ⟨fun _ => rfl, fun _ => rfl⟩

theorem Held.hasRd {s : State} (h : Held s) (q : PipeId) : s.hasRd q = true := by
  rw [State.hasRd, h.rd, Bool.true_or]

theorem Held.hasWr {s : State} (h : Held s) (q : PipeId) : s.hasWr q = true := by
  rw [State.hasWr, h.wr, Bool.true_or]

/-! ### Inversion of the steps -/

section Inversion

variable {cfg : Config} {s t : State} {k : Conn} {pid : Pid}

theorem step_peer {e : End} {ev : Sock.Peer} (h : (aggregator cfg).step s (.peer k e ev) = some t) :
    ∃ x, ((s.conn k).sock e).peer ev = some x ∧
      t = s.setWorld k ((s.world k).setSock e x) := by
  obtain ⟨x, hx, rfl⟩ := Option.map_eq_some_iff.mp h
  exact ⟨x, hx, rfl⟩

theorem step_connect {i : ℕ} {ok : Bool} (h : (aggregator cfg).step s (.connect i ok) = some t) :
    ∃ p, s.process (.prod i) .main = some p ∧ p.code = .createConnection ∧
      t = if ok then s.connected i p else s.setProcess (.prod i) .main (p.goto (.exited none)) := by
  obtain ⟨p, hp, h⟩ := Option.bind_eq_some_iff.mp h
  refine ⟨p, hp, ?_⟩
  split at h
  · next hcode => exact ⟨hcode, (Option.some.inj h).symm⟩
  · cases h

theorem step_count (h : (aggregator cfg).step s (.count k) = some t) :
    ∃ p m code, s.process k .main = some p ∧ handleCounters k s.shm p.code = some (m, code) ∧
      t = State.setProcess { s with shm := m } k .main (p.goto code) := by
  obtain ⟨p, hp, h⟩ := Option.bind_eq_some_iff.mp h
  obtain ⟨⟨m, code⟩, hx, rfl⟩ := Option.map_eq_some_iff.mp h
  exact ⟨p, m, code, hp, hx, rfl⟩

theorem step_fork (h : (aggregator cfg).step s (.fork k pid) = some t) :
    ∃ p code child start, s.process k pid = some p ∧
      p.code.fork pid = some (code, child, start) ∧
      t = (s.setProcess k pid (p.goto code)).setProcess k child (p.child start) := by
  obtain ⟨p, hp, h⟩ := Option.bind_eq_some_iff.mp h
  obtain ⟨⟨code, child, start⟩, hx, rfl⟩ := Option.map_eq_some_iff.mp h
  exact ⟨p, code, child, start, hp, hx, rfl⟩

/-- The three forks. -/
theorem Code.fork_cases {code code' start : Code} {child : Pid}
    (h : code.fork pid = some (code', child, start)) :
    ∃ c, pid = .main ∧ code = .fork1 c ∧ code' = .fork2 c ∧ child = .first ∧ start = .call1 c ∨
      code = .fork2 c ∧ code' = .exited (some c) ∧ start = .call2 c ∧
        (pid = .main ∧ child = .second ∨ pid = .first ∧ child = .firstSecond) := by
  unfold Code.fork at h
  split at h
  · next c => cases h; exact ⟨c, Or.inl ⟨rfl, rfl, rfl, rfl, rfl⟩⟩
  · next c => cases h; exact ⟨c, Or.inr ⟨rfl, rfl, rfl, Or.inl ⟨rfl, rfl⟩⟩⟩
  · next c => cases h; exact ⟨c, Or.inr ⟨rfl, rfl, rfl, Or.inr ⟨rfl, rfl⟩⟩⟩
  · cases h

theorem step_io {c : Choice} (h : (aggregator cfg).step s (.io k pid c) = some t) :
    ∃ p L, s.process k pid = some p ∧ p.loop k = some L ∧
      ((∃ n, c = .run n) ∧ p.fds.pc = .cleanup [] ∧ t = s.setProcess k pid p.afterCall ∨
        p.fds.pc ≠ .cleanup [] ∧ ∃ w fds,
          L.step s.hasRd s.hasWr (s.world k) p.fds c = some (w, fds) ∧
          t = (s.setWorld k w).setProcess k pid { p with fds := fds }) := by
  obtain ⟨p, hp, h⟩ := Option.bind_eq_some_iff.mp h
  obtain ⟨L, hL, h⟩ := Option.bind_eq_some_iff.mp h
  refine ⟨p, L, hp, hL, ?_⟩
  split_ifs at h with hpc
  · cases c with
    | run n => exact Or.inl ⟨⟨n, rfl⟩, hpc, (Option.some.inj h).symm⟩
    | write ok => cases h
  · obtain ⟨⟨w, fds⟩, hx, rfl⟩ := Option.map_eq_some_iff.mp h
    exact Or.inr ⟨hpc, w, fds, hx, rfl⟩

/-- The server keeps its ends of the pipes. -/
theorem step_server {a : Act} (h : (aggregator cfg).step s a = some t) : t.server = s.server := by
  cases a with
  | accept addr =>
    cases h
    unfold State.accept
    split_ifs <;> rfl
  | peer k e ev =>
    obtain ⟨x, -, rfl⟩ := step_peer h
    rfl
  | connect i ok =>
    obtain ⟨p, -, -, rfl⟩ := step_connect h
    cases ok <;> rfl
  | count k =>
    obtain ⟨p, m, code, -, -, rfl⟩ := step_count h
    rfl
  | fork k pid =>
    obtain ⟨p, code, child, start, -, -, rfl⟩ := step_fork h
    rfl
  | io k pid c =>
    obtain ⟨p, L, -, -, ⟨-, -, rfl⟩ | ⟨-, w, fds, -, rfl⟩⟩ := step_io h <;> rfl

theorem Held.step {a : Act} (hs : Held s) (h : (aggregator cfg).step s a = some t) : Held t := by
  have hserver := step_server h
  exact ⟨fun q => hserver ▸ hs.rd q, fun q => hserver ▸ hs.wr q⟩

end Inversion

end Parikshan.Aggregator
