import Parikshan.Machine.Basic
import Mathlib.Logic.Function.Basic

/-!
# A session of the Java proxy

A `Register` whose sockets have all connected starts its workers, one thread each. In plain mode
two `Communicate` copy between the client and the server; in duplicate mode the one that reads from
the client copies into a bounded pipe as well, a third worker sends the contents of the pipe to the
replica, and a fourth one drops what the replica sends.

The workers have one `run()` in common: read a chunk, write it, and so on until the stream ends,
then `register.kill()`, which closes the sockets one after another. An exception ends the worker:
a timeout by way of `register.kill()`, any other by way of its own `kill()`, which touches no
socket. A write on a socket and `pos.write` are single calls but many steps, and so is
`register.kill()`; the counts, and the failures that the network is free to choose, are in the
labels. Debug messages are left out.

## Main definitions

* `Task`, `task`: what the workers do.
* `State.work`: a step of a worker.
* `session`: the machine of a `Register` and its peers.
* `State.Quits`, `State.Raises`: the steps on which a worker ends its loop.
* `State.Trans`: what one step of a worker can do, case by case.

## Main results

* `trans_of_work`: inversion of a step of a worker.
-/

namespace Parikshan.JavaProxy

/-- A byte. -/
abbrev Byte := UInt8

/-- The size of the buffer `request` of a worker. -/
def requestSize : ℕ := 1024

/-- The sockets of a `Register`. -/
inductive SockId
  | outsocket
  | insocket
  | replicaSocket
  deriving DecidableEq, Repr

/-- The workers of a `Register`: `ClienttoServer` or `ClientToServerAndPipe`, `ServertoClient`,
`PipeToSock` and `CommunicateFromReplica`. -/
inductive Worker
  | clientToServer
  | serverToClient
  | pipeToSock
  | fromReplica
  deriving DecidableEq, Repr

/-- What a worker reads from: a socket or `register.pis`. -/
inductive Source
  | sock (i : SockId)
  | pis
  deriving DecidableEq, Repr

/-- The parts in which the workers differ: what they read from, where they write to, and whether
they write to `register.pos` as well. -/
structure Task where
  source : Source
  out : Option SockId
  pos : Bool

/-- `Communicate.run`. -/
def communicate (input out : SockId) : Task :=
  { source := .sock input, out := some out, pos := false }

/-- `CommunicateToServerAndPipe.run`. -/
def communicateToServerAndPipe (input out : SockId) : Task :=
  { source := .sock input, out := some out, pos := true }

/-- `CommunicatePipeToSock.run`. -/
def communicatePipeToSock (out : SockId) : Task :=
  { source := .pis, out := some out, pos := false }

/-- `CommunicateReplicaTo.run`. -/
def communicateReplicaTo (input : SockId) : Task :=
  { source := .sock input, out := none, pos := false }

/-- The workers that the two constructors create. -/
def task (duplicate : Bool) : Worker → Option Task
  | .clientToServer =>
    some (if duplicate then communicateToServerAndPipe .insocket .outsocket
      else communicate .insocket .outsocket)
  | .serverToClient => some (communicate .outsocket .insocket)
  | .pipeToSock => if duplicate then some (communicatePipeToSock .replicaSocket) else none
  | .fromReplica => if duplicate then some (communicateReplicaTo .replicaSocket) else none

/-- The threads in the order in which the constructor starts them. -/
def threads (duplicate : Bool) : List Worker :=
  if duplicate then [.clientToServer, .serverToClient, .pipeToSock, .fromReplica]
  else [.clientToServer, .serverToClient]

/-- The sockets in the order in which `kill()` closes them. -/
def sockets (duplicate : Bool) : List SockId :=
  if duplicate then [.outsocket, .insocket, .replicaSocket] else [.outsocket, .insocket]

/-- A statement of `Register.kill`: `ClienttoServer.kill()` or a `close()`. -/
inductive KillOp
  | stop
  | close (i : SockId)
  deriving DecidableEq, Repr

/-- `Register.kill`. In duplicate mode the field `ClienttoServer` is null. -/
def kill (duplicate : Bool) : List KillOp :=
  (if duplicate then [] else [.stop]) ++ (sockets duplicate).map .close

/-- Where a worker is in its `run()`: at the condition of the loop, in the read, in the write of
the chunk `buf` with `rest` still to be written, in `pos.write` with `rest` still to be put, in
`register.kill()`, or behind it. -/
inductive Pc
  | unstarted
  | loop
  | read
  | write (buf rest : List Byte)
  | pipe (rest : List Byte)
  | kill (ops : List KillOp)
  | returned
  deriving DecidableEq, Repr

/-- The worker has not left its loop. -/
def Pc.inLoop : Pc → Bool
  | .unstarted => true
  | .loop => true
  | .read => true
  | .write _ _ => true
  | .pipe _ => true
  | .kill _ => false
  | .returned => false

/-- A socket: what the peer has sent and nobody has read, whether the peer has ended its stream,
whether `close()` has been called on it, and what has been written to it. That the kernel may drop
what has been written last, when a socket is closed with something unread, is left out. -/
structure Socket where
  inbox : List Byte := []
  fin : Bool := false
  closed : Bool := false
  sent : List Byte := []
  deriving DecidableEq, Repr

/-- What the peer of a socket does. -/
inductive Peer
  | deliver (bs : List Byte)
  | fin
  deriving DecidableEq, Repr

/-- A peer acts on a socket; it sends nothing after the end of its stream. -/
def Socket.peer (x : Socket) : Peer → Option Socket
  | .deliver bs => if x.fin then none else some { x with inbox := x.inbox ++ bs }
  | .fin => if x.fin then none else some { x with fin := true }

/-- A `Register`. `pipe` is what is in the pipe between `pos` and `pis`, and `wrote` says whether
the pipe knows the thread that writes to it. -/
structure State where
  sock : SockId → Socket
  pipe : List Byte
  wrote : Bool
  pc : Worker → Pc
  isRunning : Worker → Bool
  starting : List Worker

/-- What the network and the scheduler choose in a step of a worker: a number of bytes to read, to
write or to put into the pipe, a timeout, or another exception. -/
inductive Choice
  | run (k : ℕ)
  | put (k : ℕ)
  | timeout
  | fail
  deriving DecidableEq, Repr

/-- What can happen: a peer acts on a socket, the constructor starts its next thread, a worker
takes a step. -/
inductive Act
  | peer (i : SockId) (e : Peer)
  | start
  | work (w : Worker) (c : Choice)
  deriving DecidableEq, Repr

/-- Where a worker goes with the chunk that it has read. -/
def Task.afterRead (T : Task) (bs : List Byte) : Pc :=
  match T.out with
  | some _ => .write bs bs
  | none => .loop

/-- Where a worker goes when the chunk is written. -/
def Task.afterWrite (T : Task) (buf : List Byte) : Pc := if T.pos then .pipe buf else .loop

namespace State

variable (duplicate : Bool) (cap : ℕ) (s : State)

/-- Replace a socket. -/
def setSock (i : SockId) (x : Socket) : State := { s with sock := Function.update s.sock i x }

/-- A worker goes on at `pc`. -/
def goto (w : Worker) (pc : Pc) : State := { s with pc := Function.update s.pc w pc }

/-- A worker leaves its loop, or catches a timeout: it calls `register.kill()`. -/
def quit (w : Worker) : State := s.goto w (.kill (JavaProxy.kill duplicate))

/-- A worker catches another exception: it calls its own `kill()` and returns. -/
def raise (w : Worker) : State :=
  { s.goto w .returned with isRunning := Function.update s.isRunning w false }

/-- `in.read(request)` on a socket. -/
def readSock (T : Task) (w : Worker) (i : SockId) : Choice → Option State
  | .run k =>
    if (s.sock i).closed then some (s.raise w)
    else if (s.sock i).inbox = [] then
      if (s.sock i).fin then some (s.quit duplicate w) else none
    else if 0 < k ∧ k ≤ requestSize ∧ k ≤ (s.sock i).inbox.length then
      some ((s.setSock i { s.sock i with inbox := (s.sock i).inbox.drop k }).goto w
        (T.afterRead ((s.sock i).inbox.take k)))
    else none
  | .timeout => if (s.sock i).closed then none else some (s.quit duplicate w)
  | .fail => some (s.raise w)
  | .put _ => none

/-- `register.pis.read(request)`: it fails when the pipe is empty and the thread that has written
to it is dead. Nobody closes `pos`, so the stream does not end. -/
def readPipe (T : Task) (w : Worker) : Choice → Option State
  | .run k =>
    if 0 < k ∧ k ≤ requestSize ∧ k ≤ s.pipe.length then
      some (({ s with pipe := s.pipe.drop k }).goto w (T.afterRead (s.pipe.take k)))
    else none
  | .fail =>
    if s.pipe = [] ∧ s.wrote ∧ s.pc .clientToServer = .returned then some (s.raise w) else none
  | .timeout => none
  | .put _ => none

/-- `out.write(request, 0, bytesRead)`. -/
def writeSock (T : Task) (w : Worker) (i : SockId) (buf rest : List Byte) : Choice → Option State
  | .run k =>
    if (s.sock i).closed then some (s.raise w)
    else if 0 < k ∧ k ≤ rest.length then
      some ((s.setSock i { s.sock i with sent := (s.sock i).sent ++ rest.take k }).goto w
        (if rest.drop k = [] then T.afterWrite buf else .write buf (rest.drop k)))
    else none
  | .timeout => if (s.sock i).closed then none else some (s.quit duplicate w)
  | .fail => some (s.raise w)
  | .put _ => none

/-- `register.pos.write(request, 0, bytesRead)`: it puts bytes while there is room, and fails when
the thread that reads from the pipe is dead. That thread has read before it can die. -/
def writePipe (w : Worker) (rest : List Byte) : Choice → Option State
  | .put k =>
    if 0 < k ∧ k ≤ rest.length ∧ s.pipe.length + k ≤ cap then
      some (({ s with pipe := s.pipe ++ rest.take k, wrote := true }).goto w
        (if rest.drop k = [] then .loop else .pipe (rest.drop k)))
    else none
  | .fail => if s.pc .pipeToSock = .returned then some (s.raise w) else none
  | .run _ => none
  | .timeout => none

/-- The next statement of `register.kill()`. If a `close()` throws, the rest is skipped. -/
def killStep (w : Worker) : List KillOp → Choice → Option State
  | .stop :: ops, .run _ =>
    some (({ s with isRunning := Function.update s.isRunning .clientToServer false }).goto w
      (.kill ops))
  | .close i :: ops, .run _ =>
    some ((s.setSock i { s.sock i with closed := true }).goto w (.kill ops))
  | .close i :: _, .fail => if (s.sock i).closed then none else some (s.goto w .returned)
  | [], .run _ => some (s.goto w .returned)
  | _, _ => none

/-- A step of a worker. -/
def work (w : Worker) (c : Choice) : Option State :=
  (task duplicate w).bind fun T =>
    match s.pc w with
    | .unstarted => none
    | .loop =>
      match c with
      | .run _ => some (if s.isRunning w then s.goto w .read else s.quit duplicate w)
      | _ => none
    | .read =>
      match T.source with
      | .sock i => s.readSock duplicate T w i c
      | .pis => s.readPipe T w c
    | .write buf rest =>
      match T.out with
      | some i => s.writeSock duplicate T w i buf rest c
      | none => none
    | .pipe rest => if T.pos then s.writePipe cap w rest c else none
    | .kill ops => s.killStep w ops c
    | .returned => none

/-- The constructor starts its next thread. -/
def start : Option State :=
  match s.starting with
  | w :: ws => some { s.goto w .loop with starting := ws }
  | [] => none

end State

/-- The machine of a `Register` with a pipe of capacity `cap`. -/
def session (duplicate : Bool) (cap : ℕ) : Machine State Act where
  step s
    | .peer i e => ((s.sock i).peer e).map fun x => s.setSock i x
    | .start => s.start
    | .work w c => s.work duplicate cap w c

/-- A `Register` whose sockets have all connected. -/
def registered (duplicate : Bool) : State where
  sock _ := {}
  pipe := []
  wrote := false
  pc _ := .unstarted
  isRunning _ := true
  starting := threads duplicate

/-- The capacity that the constructor gives to the pipe. -/
def pipeSize : ℕ := 100000000

@[simp] theorem Task.afterRead_inLoop (T : Task) (bs : List Byte) :
    (T.afterRead bs).inLoop = true := by
  unfold Task.afterRead
  cases T.out <;> rfl

@[simp] theorem Task.afterWrite_inLoop (T : Task) (buf : List Byte) :
    (T.afterWrite buf).inLoop = true := by
  unfold Task.afterWrite
  cases T.pos <;> rfl

section Tasks

variable {w : Worker} {T : Task}

/-- In duplicate mode one worker reads from the client, writes to the server and puts bytes into
the pipe. -/
theorem task_of_ne_clientToServer (hT : task true w = some T) (hw : w ≠ .clientToServer) :
    T.source ≠ .sock .insocket ∧ T.out ≠ some .outsocket ∧ T.pos = false := by
  cases w with
  | clientToServer => exact absurd rfl hw
  | _ =>
    obtain rfl := Option.some.inj hT
    simp [communicate, communicatePipeToSock, communicateReplicaTo]

/-- In duplicate mode one worker reads from the pipe and writes to the replica. -/
theorem task_of_ne_pipeToSock (hT : task true w = some T) (hw : w ≠ .pipeToSock) :
    T.source ≠ .pis ∧ T.out ≠ some .replicaSocket := by
  cases w with
  | pipeToSock => exact absurd rfl hw
  | _ =>
    obtain rfl := Option.some.inj hT
    simp [communicate, communicateToServerAndPipe, communicateReplicaTo]

end Tasks

/-! ### Fields after an update -/

namespace State

section Updates

variable (duplicate : Bool) (s : State) (w : Worker) (pc : Pc) (i : SockId) (x : Socket)

@[simp] theorem goto_pc_self : (s.goto w pc).pc w = pc := Function.update_self ..

theorem goto_pc_of_ne {w w' : Worker} (h : w' ≠ w) : (s.goto w pc).pc w' = s.pc w' :=
  Function.update_of_ne h ..

@[simp] theorem goto_sock : (s.goto w pc).sock = s.sock := rfl

@[simp] theorem goto_pipe : (s.goto w pc).pipe = s.pipe := rfl

@[simp] theorem goto_starting : (s.goto w pc).starting = s.starting := rfl

@[simp] theorem quit_pc_self :
    (s.quit duplicate w).pc w = .kill (JavaProxy.kill duplicate) := goto_pc_self ..

@[simp] theorem quit_sock : (s.quit duplicate w).sock = s.sock := rfl

@[simp] theorem quit_pipe : (s.quit duplicate w).pipe = s.pipe := rfl

@[simp] theorem quit_starting : (s.quit duplicate w).starting = s.starting := rfl

@[simp] theorem raise_pc_self : (s.raise w).pc w = .returned := goto_pc_self ..

theorem raise_pc_of_ne {w w' : Worker} (h : w' ≠ w) : (s.raise w).pc w' = s.pc w' :=
  goto_pc_of_ne s _ h

@[simp] theorem raise_sock : (s.raise w).sock = s.sock := rfl

@[simp] theorem raise_pipe : (s.raise w).pipe = s.pipe := rfl

@[simp] theorem raise_starting : (s.raise w).starting = s.starting := rfl

@[simp] theorem setSock_pc : (s.setSock i x).pc = s.pc := rfl

@[simp] theorem setSock_pipe : (s.setSock i x).pipe = s.pipe := rfl

@[simp] theorem setSock_starting : (s.setSock i x).starting = s.starting := rfl

@[simp] theorem setSock_sock_self : (s.setSock i x).sock i = x := Function.update_self ..

theorem setSock_sock_of_ne {i j : SockId} (h : j ≠ i) : (s.setSock i x).sock j = s.sock j :=
  Function.update_of_ne h ..

/-- What the new socket has from the old one stays as it is for all sockets. -/
theorem setSock_sock_eq {β : Type} {i : SockId} {x : Socket} (f : Socket → β)
    (hx : f x = f (s.sock i)) (j : SockId) : f ((s.setSock i x).sock j) = f (s.sock j) := by
  by_cases hij : j = i
  · rw [hij, setSock_sock_self, hx]
  · rw [setSock_sock_of_ne s x hij]

end Updates

end State

/-! ### Inversion of the steps -/

namespace State

variable {duplicate : Bool} {cap : ℕ} {s t : State} {w : Worker} {c : Choice}

/-- The worker leaves its loop for `register.kill()`: its flag is down, or the stream of its socket
has ended, or a call on a socket has timed out. -/
inductive Quits (duplicate : Bool) (s : State) (w : Worker) : Choice → Prop
  | stopped {k : ℕ} (hpc : s.pc w = .loop) (hflag : s.isRunning w = false) :
      Quits duplicate s w (.run k)
  | eof {T : Task} {i : SockId} {k : ℕ} (hT : task duplicate w = some T) (hpc : s.pc w = .read)
      (hsrc : T.source = .sock i) (hopen : (s.sock i).closed = false)
      (hempty : (s.sock i).inbox = []) (hfin : (s.sock i).fin = true) :
      Quits duplicate s w (.run k)
  | readTimeout {T : Task} {i : SockId} (hT : task duplicate w = some T) (hpc : s.pc w = .read)
      (hsrc : T.source = .sock i) (hopen : (s.sock i).closed = false) :
      Quits duplicate s w .timeout
  | writeTimeout {T : Task} {i : SockId} {buf rest : List Byte} (hT : task duplicate w = some T)
      (hpc : s.pc w = .write buf rest) (hout : T.out = some i)
      (hopen : (s.sock i).closed = false) : Quits duplicate s w .timeout

/-- The worker catches an exception other than a timeout: a call on a socket fails, which it does
at the latest when the socket is closed, or a call on the pipe finds the other thread dead. -/
inductive Raises (duplicate : Bool) (s : State) (w : Worker) : Choice → Prop
  | readClosed {T : Task} {i : SockId} {k : ℕ} (hT : task duplicate w = some T)
      (hpc : s.pc w = .read) (hsrc : T.source = .sock i) (hclosed : (s.sock i).closed = true) :
      Raises duplicate s w (.run k)
  | readFails {T : Task} {i : SockId} (hT : task duplicate w = some T) (hpc : s.pc w = .read)
      (hsrc : T.source = .sock i) : Raises duplicate s w .fail
  | readDead {T : Task} (hT : task duplicate w = some T) (hpc : s.pc w = .read)
      (hsrc : T.source = .pis) (hempty : s.pipe = []) (hwrote : s.wrote = true)
      (hdead : s.pc .clientToServer = .returned) : Raises duplicate s w .fail
  | writeClosed {T : Task} {i : SockId} {k : ℕ} {buf rest : List Byte}
      (hT : task duplicate w = some T) (hpc : s.pc w = .write buf rest) (hout : T.out = some i)
      (hclosed : (s.sock i).closed = true) : Raises duplicate s w (.run k)
  | writeFails {T : Task} {i : SockId} {buf rest : List Byte} (hT : task duplicate w = some T)
      (hpc : s.pc w = .write buf rest) (hout : T.out = some i) : Raises duplicate s w .fail
  | putDead {T : Task} {rest : List Byte} (hT : task duplicate w = some T)
      (hpc : s.pc w = .pipe rest) (htee : T.pos = true)
      (hdead : s.pc .pipeToSock = .returned) : Raises duplicate s w .fail

/-- What one step of a worker can do. -/
inductive Trans (duplicate : Bool) (cap : ℕ) (s : State) (w : Worker) : Choice → State → Prop
  | read {k : ℕ} (hpc : s.pc w = .loop) (hflag : s.isRunning w = true) :
      Trans duplicate cap s w (.run k) (s.goto w .read)
  | recv {T : Task} {i : SockId} {k : ℕ} (hT : task duplicate w = some T) (hpc : s.pc w = .read)
      (hsrc : T.source = .sock i) (hopen : (s.sock i).closed = false) (hpos : 0 < k)
      (hle : k ≤ (s.sock i).inbox.length) :
      Trans duplicate cap s w (.run k)
        ((s.setSock i { s.sock i with inbox := (s.sock i).inbox.drop k }).goto w
          (T.afterRead ((s.sock i).inbox.take k)))
  | take {T : Task} {k : ℕ} (hT : task duplicate w = some T) (hpc : s.pc w = .read)
      (hsrc : T.source = .pis) (hpos : 0 < k) (hle : k ≤ s.pipe.length) :
      Trans duplicate cap s w (.run k)
        (({ s with pipe := s.pipe.drop k }).goto w (T.afterRead (s.pipe.take k)))
  | send {T : Task} {i : SockId} {k : ℕ} {buf rest : List Byte} (hT : task duplicate w = some T)
      (hpc : s.pc w = .write buf rest) (hout : T.out = some i)
      (hopen : (s.sock i).closed = false) (hpos : 0 < k) (hle : k ≤ rest.length) :
      Trans duplicate cap s w (.run k)
        ((s.setSock i { s.sock i with sent := (s.sock i).sent ++ rest.take k }).goto w
          (if rest.drop k = [] then T.afterWrite buf else .write buf (rest.drop k)))
  | put {T : Task} {k : ℕ} {rest : List Byte} (hT : task duplicate w = some T)
      (hpc : s.pc w = .pipe rest) (htee : T.pos = true) (hpos : 0 < k) (hle : k ≤ rest.length)
      (hroom : s.pipe.length + k ≤ cap) :
      Trans duplicate cap s w (.put k)
        (({ s with pipe := s.pipe ++ rest.take k, wrote := true }).goto w
          (if rest.drop k = [] then .loop else .pipe (rest.drop k)))
  | quit {c : Choice} (h : s.Quits duplicate w c) :
      Trans duplicate cap s w c (s.quit duplicate w)
  | raise {c : Choice} (h : s.Raises duplicate w c) : Trans duplicate cap s w c (s.raise w)
  | stop {k : ℕ} {ops : List KillOp} (hpc : s.pc w = .kill (.stop :: ops)) :
      Trans duplicate cap s w (.run k)
        (({ s with isRunning := Function.update s.isRunning .clientToServer false }).goto w
          (.kill ops))
  | close {k : ℕ} {i : SockId} {ops : List KillOp} (hpc : s.pc w = .kill (.close i :: ops)) :
      Trans duplicate cap s w (.run k)
        ((s.setSock i { s.sock i with closed := true }).goto w (.kill ops))
  | closeFails {i : SockId} {ops : List KillOp} (hpc : s.pc w = .kill (.close i :: ops))
      (hopen : (s.sock i).closed = false) : Trans duplicate cap s w .fail (s.goto w .returned)
  | killed {k : ℕ} (hpc : s.pc w = .kill []) :
      Trans duplicate cap s w (.run k) (s.goto w .returned)

theorem trans_of_readSock {T : Task} {i : SockId} (hT : task duplicate w = some T)
    (hpc : s.pc w = .read) (hsrc : T.source = .sock i)
    (h : s.readSock duplicate T w i c = some t) : s.Trans duplicate cap w c t := by
  cases c with
  | run k =>
    simp only [readSock] at h
    split_ifs at h with hclosed hempty hfin hk <;> cases h
    · exact .raise (.readClosed hT hpc hsrc hclosed)
    · exact .quit (.eof hT hpc hsrc (by simpa using hclosed) hempty hfin)
    · exact .recv hT hpc hsrc (by simpa using hclosed) hk.1 hk.2.2
  | timeout =>
    simp only [readSock] at h
    split_ifs at h with hclosed
    cases h
    exact .quit (.readTimeout hT hpc hsrc (by simpa using hclosed))
  | fail =>
    cases h
    exact .raise (.readFails hT hpc hsrc)
  | put k => cases h

theorem trans_of_readPipe {T : Task} (hT : task duplicate w = some T) (hpc : s.pc w = .read)
    (hsrc : T.source = .pis) (h : s.readPipe T w c = some t) : s.Trans duplicate cap w c t := by
  cases c with
  | run k =>
    simp only [readPipe] at h
    split_ifs at h with hk
    cases h
    exact .take hT hpc hsrc hk.1 hk.2.2
  | fail =>
    simp only [readPipe] at h
    split_ifs at h with hdead
    cases h
    exact .raise (.readDead hT hpc hsrc hdead.1 hdead.2.1 hdead.2.2)
  | timeout => cases h
  | put k => cases h

theorem trans_of_writeSock {T : Task} {i : SockId} {buf rest : List Byte}
    (hT : task duplicate w = some T) (hpc : s.pc w = .write buf rest) (hout : T.out = some i)
    (h : s.writeSock duplicate T w i buf rest c = some t) : s.Trans duplicate cap w c t := by
  cases c with
  | run k =>
    by_cases hclosed : (s.sock i).closed = true
    · rw [writeSock, if_pos hclosed] at h
      cases h
      exact .raise (.writeClosed hT hpc hout hclosed)
    · rw [writeSock, if_neg hclosed] at h
      obtain ⟨hk, h⟩ := Option.ite_none_right_eq_some.mp h
      cases h
      exact .send hT hpc hout (by simpa using hclosed) hk.1 hk.2
  | timeout =>
    simp only [writeSock] at h
    split_ifs at h with hclosed
    cases h
    exact .quit (.writeTimeout hT hpc hout (by simpa using hclosed))
  | fail =>
    cases h
    exact .raise (.writeFails hT hpc hout)
  | put k => cases h

theorem trans_of_writePipe {T : Task} {rest : List Byte} (hT : task duplicate w = some T)
    (hpc : s.pc w = .pipe rest) (htee : T.pos = true) (h : s.writePipe cap w rest c = some t) :
    s.Trans duplicate cap w c t := by
  cases c with
  | put k =>
    obtain ⟨hk, h⟩ := Option.ite_none_right_eq_some.mp h
    cases h
    exact .put hT hpc htee hk.1 hk.2.1 hk.2.2
  | fail =>
    simp only [writePipe] at h
    split_ifs at h with hdead
    cases h
    exact .raise (.putDead hT hpc htee hdead)
  | run k => cases h
  | timeout => cases h

theorem trans_of_killStep {ops : List KillOp} (hpc : s.pc w = .kill ops)
    (h : s.killStep w ops c = some t) : s.Trans duplicate cap w c t := by
  unfold killStep at h
  split at h
  · cases h
    exact .stop hpc
  · cases h
    exact .close hpc
  · split_ifs at h with hclosed
    cases h
    exact .closeFails hpc (by simpa using hclosed)
  · cases h
    exact .killed hpc
  · cases h

/-- **Inversion of a step of a worker.** -/
theorem trans_of_work (h : s.work duplicate cap w c = some t) : s.Trans duplicate cap w c t := by
  obtain ⟨T, hT, h⟩ := Option.bind_eq_some_iff.mp h
  cases hpc : s.pc w with
  | unstarted => simp [hpc] at h
  | returned => simp [hpc] at h
  | loop =>
    simp only [hpc] at h
    cases c with
    | run k =>
      obtain rfl := Option.some.inj h
      split_ifs with hflag
      · exact .read hpc hflag
      · exact .quit (.stopped hpc (by simpa using hflag))
    | _ => cases h
  | read =>
    simp only [hpc] at h
    cases hsrc : T.source with
    | sock i => exact trans_of_readSock hT hpc hsrc (by simpa only [hsrc] using h)
    | pis => exact trans_of_readPipe hT hpc hsrc (by simpa only [hsrc] using h)
  | write buf rest =>
    simp only [hpc] at h
    cases hout : T.out with
    | none => simp [hout] at h
    | some i => exact trans_of_writeSock hT hpc hout (by simpa only [hout] using h)
  | pipe rest =>
    simp only [hpc] at h
    split_ifs at h with htee
    exact trans_of_writePipe hT hpc htee h
  | kill ops => exact trans_of_killStep hpc (by simpa only [hpc] using h)

/-- A step of a worker moves no other worker. -/
theorem Trans.pc_of_ne (h : s.Trans duplicate cap w c t) {w' : Worker} (hne : w' ≠ w) :
    t.pc w' = s.pc w' := by
  cases h <;> exact goto_pc_of_ne _ _ hne

/-- The constructor starts the same threads whatever the workers do. -/
theorem Trans.starting (h : s.Trans duplicate cap w c t) : t.starting = s.starting := by
  cases h <;> rfl

/-- A socket is closed by the statement of `kill()` for it, and by nothing else. -/
theorem Trans.closed_iff (h : s.Trans duplicate cap w c t) (i : SockId) :
    (t.sock i).closed = true ↔ (s.sock i).closed = true ∨
      ∃ ops, s.pc w = .kill (.close i :: ops) ∧ t.pc w = .kill ops := by
  have hkeep (j : SockId) (x : Socket) (pc : Pc) (hx : x.closed = (s.sock j).closed)
      (hpc : ∀ ops, s.pc w ≠ .kill (.close i :: ops)) :
      (((s.setSock j x).goto w pc).sock i).closed = true ↔ (s.sock i).closed = true ∨
        ∃ ops, s.pc w = .kill (.close i :: ops) ∧ ((s.setSock j x).goto w pc).pc w = .kill ops := by
    simp only [hpc, false_and, exists_false, or_false, goto_sock]
    rw [s.setSock_sock_eq Socket.closed hx]
  cases h with
  | read hpc => simp [hpc]
  | recv hT hpc => exact hkeep _ _ _ rfl (by simp [hpc])
  | take hT hpc => simp [hpc]
  | send hT hpc => exact hkeep _ _ _ rfl (by simp [hpc])
  | put hT hpc => simp [hpc]
  | quit h => cases h <;> simp [*]
  | raise h => cases h <;> simp [*]
  | stop hpc => simp [hpc]
  | @close k j ops hpc =>
    by_cases hij : i = j
    · subst hij
      simp [hpc]
    · simp [hpc, setSock_sock_of_ne s _ hij, Ne.symm hij]
  | closeFails hpc => simp [hpc]
  | killed hpc => simp [hpc]

/-- The end of a stream is up to the peer. -/
theorem Trans.fin_eq (h : s.Trans duplicate cap w c t) (i : SockId) :
    (t.sock i).fin = (s.sock i).fin := by
  cases h with
  | recv => exact s.setSock_sock_eq Socket.fin (by rfl) i
  | send => exact s.setSock_sock_eq Socket.fin (by rfl) i
  | close => exact s.setSock_sock_eq Socket.fin (by rfl) i
  | _ => rfl

/-- Nothing is written to a closed socket. -/
theorem Trans.sent_of_closed (h : s.Trans duplicate cap w c t) {i : SockId}
    (hi : (s.sock i).closed = true) : (t.sock i).sent = (s.sock i).sent := by
  cases h with
  | recv => exact s.setSock_sock_eq Socket.sent (by rfl) i
  | @send T j k buf rest hT hpc hout hopen =>
    have hij : i ≠ j := by
      rintro rfl
      simp [hopen] at hi
    rw [goto_sock, setSock_sock_of_ne s _ hij]
  | close => exact s.setSock_sock_eq Socket.sent (by rfl) i
  | _ => rfl

/-- Bytes are written to a socket by the worker whose task it is. -/
theorem Trans.sent_eq (h : s.Trans duplicate cap w c t) {i : SockId}
    (hi : ∀ T, task duplicate w = some T → T.out ≠ some i) :
    (t.sock i).sent = (s.sock i).sent := by
  cases h with
  | recv => exact s.setSock_sock_eq Socket.sent (by rfl) i
  | @send T j k buf rest hT hpc hout =>
    have hij : i ≠ j := by
      rintro rfl
      exact hi T hT hout
    rw [goto_sock, setSock_sock_of_ne s _ hij]
  | close => exact s.setSock_sock_eq Socket.sent (by rfl) i
  | _ => rfl

/-- Bytes are put into the pipe and taken from it by the workers whose task it is. -/
theorem Trans.pipe_eq (h : s.Trans duplicate cap w c t)
    (hw : ∀ T, task duplicate w = some T → T.source ≠ .pis ∧ T.pos = false) :
    t.pipe = s.pipe := by
  cases h with
  | take hT hpc hsrc => exact absurd hsrc (hw _ hT).1
  | put hT hpc htee => simp [(hw _ hT).2] at htee
  | _ => rfl

/-- A worker that moves bytes stays in its loop. -/
theorem send_inLoop {T : Task} {k : ℕ} {buf rest : List Byte} :
    (if rest.drop k = [] then T.afterWrite buf else .write buf (rest.drop k)).inLoop = true := by
  split_ifs
  · exact T.afterWrite_inLoop buf
  · rfl

theorem put_inLoop {k : ℕ} {rest : List Byte} :
    (if rest.drop k = [] then Pc.loop else .pipe (rest.drop k)).inLoop = true := by
  split_ifs <;> rfl

/-- How a worker comes to be out of its loop. -/
theorem Trans.leaves (h : s.Trans duplicate cap w c t) (hin : (t.pc w).inLoop = false) :
    s.Quits duplicate w c ∧ t = s.quit duplicate w ∨
      s.Raises duplicate w c ∧ t = s.raise w ∨ ∃ ops, s.pc w = .kill ops := by
  cases h with
  | read => simp [Pc.inLoop] at hin
  | recv => simp at hin
  | take => simp at hin
  | send =>
    rw [goto_pc_self, send_inLoop] at hin
    cases hin
  | put =>
    rw [goto_pc_self, put_inLoop] at hin
    cases hin
  | quit hq => exact Or.inl ⟨hq, rfl⟩
  | raise hr => exact Or.inr (Or.inl ⟨hr, rfl⟩)
  | stop hpc => exact Or.inr (Or.inr ⟨_, hpc⟩)
  | close hpc => exact Or.inr (Or.inr ⟨_, hpc⟩)
  | closeFails hpc => exact Or.inr (Or.inr ⟨_, hpc⟩)
  | killed hpc => exact Or.inr (Or.inr ⟨_, hpc⟩)

/-- A worker in `register.kill()` has just called it, or is one statement further in it. -/
theorem Trans.kills (h : s.Trans duplicate cap w c t) {ops : List KillOp}
    (hpc : t.pc w = .kill ops) :
    ops = JavaProxy.kill duplicate ∨ ∃ o, s.pc w = .kill (o :: ops) := by
  obtain ⟨-, rfl⟩ | ⟨-, rfl⟩ | ⟨ops₀, hkill⟩ := h.leaves (by rw [hpc]; rfl)
  · exact Or.inl (by simpa [eq_comm] using hpc)
  · simp at hpc
  · cases h with
    | quit => exact Or.inl (by simpa [eq_comm] using hpc)
    | stop hop =>
      simp only [goto_pc_self, Pc.kill.injEq] at hpc
      exact Or.inr ⟨_, hpc ▸ hop⟩
    | close hop =>
      simp only [goto_pc_self, Pc.kill.injEq] at hpc
      exact Or.inr ⟨_, hpc ▸ hop⟩
    | raise | closeFails | killed => simp at hpc
    | read hne | recv _ hne | take _ hne | send _ hne | put _ hne => simp [hne] at hkill

/-- A worker returns when it has caught an exception other than a timeout, when a `close()` has
thrown, or at the end of `register.kill()`. -/
theorem Trans.returns (h : s.Trans duplicate cap w c t) (hpc : t.pc w = .returned) :
    s.Raises duplicate w c ∨ (∃ i ops, s.pc w = .kill (.close i :: ops) ∧ c = .fail) ∨
      s.pc w = .kill [] := by
  obtain ⟨-, rfl⟩ | ⟨hr, -⟩ | ⟨ops, hkill⟩ := h.leaves (by rw [hpc]; rfl)
  · simp at hpc
  · exact Or.inl hr
  · cases h with
    | raise hr => exact Or.inl hr
    | closeFails hop => exact Or.inr (Or.inl ⟨_, _, hop, rfl⟩)
    | killed hop => exact Or.inr (Or.inr hop)
    | quit | stop | close => simp at hpc
    | read hne | recv _ hne | take _ hne | send _ hne | put _ hne => simp [hne] at hkill

/-- A worker that leaves its loop, or has left it, moves no bytes. -/
theorem Trans.of_left (h : s.Trans duplicate cap w c t) (hin : (t.pc w).inLoop = false) :
    t.pipe = s.pipe ∧ ∀ i, (t.sock i).sent = (s.sock i).sent := by
  cases h with
  | recv => exact ⟨rfl, s.setSock_sock_eq Socket.sent (by rfl)⟩
  | take => simp at hin
  | send =>
    rw [goto_pc_self, send_inLoop] at hin
    cases hin
  | put =>
    rw [goto_pc_self, put_inLoop] at hin
    cases hin
  | close => exact ⟨rfl, s.setSock_sock_eq Socket.sent (by rfl)⟩
  | _ => exact ⟨rfl, fun _ => rfl⟩

/-- A worker that has left its loop does not come back. -/
theorem Trans.inLoop (h : s.Trans duplicate cap w c t) {w' : Worker}
    (hin : (t.pc w').inLoop = true) : (s.pc w').inLoop = true := by
  by_cases hw : w' = w
  · subst hw
    cases h with
    | read hpc => rw [hpc]; rfl
    | recv hT hpc => rw [hpc]; rfl
    | take hT hpc => rw [hpc]; rfl
    | send hT hpc => rw [hpc]; rfl
    | put hT hpc => rw [hpc]; rfl
    | _ => simp [Pc.inLoop] at hin
  · rwa [← h.pc_of_ne hw]

/-- A worker that has returned takes no step. -/
theorem Trans.pc_ne_returned (h : s.Trans duplicate cap w c t) : s.pc w ≠ .returned := by
  cases h with
  | quit h => cases h <;> simp [*]
  | raise h => cases h <;> simp [*]
  | _ => simp [*]

/-- A thread takes no step before it has been started. -/
theorem Trans.pc_ne_unstarted (h : s.Trans duplicate cap w c t) :
    s.pc w ≠ .unstarted ∧ t.pc w ≠ .unstarted := by
  cases h with
  | read hpc => simp [hpc]
  | @recv T i k hT hpc => cases hout : T.out <;> simp [hpc, Task.afterRead, hout]
  | @take T k hT hpc => cases hout : T.out <;> simp [hpc, Task.afterRead, hout]
  | send hT hpc =>
    simp only [hpc, goto_pc_self, Task.afterWrite]
    split_ifs <;> simp
  | put hT hpc =>
    simp only [hpc, goto_pc_self]
    split_ifs <;> simp
  | quit h => cases h <;> simp [*]
  | raise h => cases h <;> simp [*]
  | stop hpc => simp [hpc]
  | close hpc => simp [hpc]
  | closeFails hpc => simp [hpc]
  | killed hpc => simp [hpc]

/-- A worker that raises an exception takes the branch that calls its own `kill()`. -/
theorem Raises.eq_raise (hr : s.Raises duplicate w c) (h : s.work duplicate cap w c = some t) :
    t = s.raise w := by
  obtain ⟨T, hT, h⟩ := Option.bind_eq_some_iff.mp h
  cases hr with
  | readClosed hT' hpc hsrc hclosed =>
    obtain rfl := Option.some.inj (hT.symm.trans hT')
    simpa [hpc, hsrc, readSock, hclosed, eq_comm] using h
  | readFails hT' hpc hsrc =>
    obtain rfl := Option.some.inj (hT.symm.trans hT')
    simpa [hpc, hsrc, readSock, eq_comm] using h
  | readDead hT' hpc hsrc hempty hwrote hdead =>
    obtain rfl := Option.some.inj (hT.symm.trans hT')
    simpa [hpc, hsrc, readPipe, hempty, hwrote, hdead, eq_comm] using h
  | writeClosed hT' hpc hout hclosed =>
    obtain rfl := Option.some.inj (hT.symm.trans hT')
    simpa [hpc, hout, writeSock, hclosed, eq_comm] using h
  | writeFails hT' hpc hout =>
    obtain rfl := Option.some.inj (hT.symm.trans hT')
    simpa [hpc, hout, writeSock, eq_comm] using h
  | putDead hT' hpc htee hdead =>
    obtain rfl := Option.some.inj (hT.symm.trans hT')
    simpa [hpc, htee, writePipe, hdead, eq_comm] using h

/-- A worker that leaves its loop takes the branch that calls `register.kill()`. -/
theorem Quits.eq_quit (hq : s.Quits duplicate w c) (h : s.work duplicate cap w c = some t) :
    t = s.quit duplicate w := by
  obtain ⟨T, hT, h⟩ := Option.bind_eq_some_iff.mp h
  cases hq with
  | stopped hpc hflag => simpa [hpc, hflag, eq_comm] using h
  | eof hT' hpc hsrc hopen hempty hfin =>
    obtain rfl := Option.some.inj (hT.symm.trans hT')
    simpa [hpc, hsrc, readSock, hopen, hempty, hfin, eq_comm] using h
  | readTimeout hT' hpc hsrc hopen =>
    obtain rfl := Option.some.inj (hT.symm.trans hT')
    simpa [hpc, hsrc, readSock, hopen, eq_comm] using h
  | writeTimeout hT' hpc hout hopen =>
    obtain rfl := Option.some.inj (hT.symm.trans hT')
    simpa [hpc, hout, writeSock, hopen, eq_comm] using h

end State

section Steps

variable {duplicate : Bool} {cap : ℕ} {s t : State}

theorem step_peer {i : SockId} {e : Peer}
    (h : (session duplicate cap).step s (.peer i e) = some t) :
    ∃ x, (s.sock i).peer e = some x ∧ (∀ j, (t.sock j).closed = (s.sock j).closed) ∧
      (∀ j, (t.sock j).sent = (s.sock j).sent) ∧ t = s.setSock i x := by
  obtain ⟨x, hx, rfl⟩ := Option.map_eq_some_iff.mp h
  refine ⟨x, hx, s.setSock_sock_eq Socket.closed ?_, s.setSock_sock_eq Socket.sent ?_, rfl⟩ <;>
    cases e <;> simp only [Socket.peer] at hx <;> split_ifs at hx <;> cases hx <;> rfl

theorem step_start (h : (session duplicate cap).step s .start = some t) :
    ∃ w ws, s.starting = w :: ws ∧ t = { s.goto w .loop with starting := ws } := by
  change s.start = some t at h
  unfold State.start at h
  split at h
  · next w ws hstarting => exact ⟨w, ws, hstarting, (Option.some.inj h).symm⟩
  · cases h

/-- A socket that is closed stays closed. -/
theorem closed_of_step {a : Act} {i : SockId} (h : (session duplicate cap).step s a = some t)
    (hi : (s.sock i).closed = true) : (t.sock i).closed = true := by
  cases a with
  | peer j e =>
    obtain ⟨x, -, hclosed, -, rfl⟩ := step_peer h
    exact (hclosed i).trans hi
  | start =>
    obtain ⟨w, ws, -, rfl⟩ := step_start h
    exact hi
  | work w c => exact ((State.trans_of_work h).closed_iff i).mpr (Or.inl hi)

end Steps

/-! ### The threads -/

/-- The constructor has still to start the threads that have not been started. -/
structure Fresh (duplicate : Bool) (s : State) : Prop where
  nodup : s.starting.Nodup
  mem_iff : ∀ w, w ∈ s.starting ↔ w ∈ threads duplicate ∧ s.pc w = .unstarted

theorem Fresh.registered (duplicate : Bool) : Fresh duplicate (registered duplicate) := by
  cases duplicate <;> exact ⟨by decide, fun w => by simp [JavaProxy.registered]⟩

theorem Fresh.step {duplicate : Bool} {cap : ℕ} {s t : State} {a : Act} (hs : Fresh duplicate s)
    (h : (session duplicate cap).step s a = some t) : Fresh duplicate t := by
  cases a with
  | peer i e =>
    obtain ⟨x, -, -, -, rfl⟩ := step_peer h
    exact ⟨hs.nodup, hs.mem_iff⟩
  | start =>
    obtain ⟨w, ws, hstarting, rfl⟩ := step_start h
    obtain ⟨hw, hws⟩ := List.nodup_cons.mp (hstarting ▸ hs.nodup)
    refine ⟨hws, fun w' => ?_⟩
    by_cases hne : w' = w
    · subst hne
      simp [hw]
    · have hmem := hs.mem_iff w'
      rw [hstarting, List.mem_cons, or_iff_right hne] at hmem
      simpa [State.goto_pc_of_ne s _ hne] using hmem
  | work w c =>
    have htrans := State.trans_of_work h
    obtain ⟨hs₀, ht₀⟩ := htrans.pc_ne_unstarted
    refine ⟨htrans.starting ▸ hs.nodup, fun w' => ?_⟩
    rw [htrans.starting, hs.mem_iff]
    by_cases hne : w' = w
    · subst hne
      simp [hs₀, ht₀]
    · rw [htrans.pc_of_ne hne]

end Parikshan.JavaProxy
