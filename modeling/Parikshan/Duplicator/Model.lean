import Parikshan.Machine.Basic
import Parikshan.Posix.Forwarding

/-!
# The network duplicator

`handle_client` of `proxyClone/proxy.c` serves one client connection: it connects to the
production server, in asynchronous mode also to the duplicate server, creates a pipe whose write
end is nonblocking, forks its workers and closes its own sockets. Each worker inherits the
descriptors that `handle_client` has open when it forks.

* `T1` forwards from the client to production, in asynchronous mode writing to the pipe as well;
* `T2` forwards from production to the client;
* `T3` (asynchronous mode) forwards from the pipe to the duplicate, after `sleep(10)`;
* `T4` (asynchronous mode) reads from the duplicate and drops what it reads.

Runs start when the connections and the pipe are set up (`proxy.c`, line 334). The synchronous
mode is not part of this machine. `fork` is taken to succeed, and diagnostics are left out.

## Main definitions

* `forwardData`, `forwardDataAsynch`, `forwardDataPipe`, `receiveDataAsynch`: the loops.
* `handleClient`: what is left of `handle_client` once the pipe is set up.
* `duplicator`: the machine of `handle_client`, its workers and the three peers.
-/

namespace Parikshan.Duplicator

open Posix

/-- The three connections of a handled client. -/
inductive SockId
  | client
  | remote
  | duplicate
  deriving DecidableEq, Repr

/-- The workers that `handle_client` forks. -/
inductive Tid
  | t1
  | t2
  | t3
  | t4
  deriving DecidableEq, Repr

/-! ### The loops -/

/-- `BUF_SIZE`. -/
def bufSize : ℕ := 1024

/-- `forward_data(source_sock, destination_sock)`, lines 474–489. -/
def forwardData (source destination : SockId) : Loop SockId Unit where
  entry := .read
  size := bufSize
  source := .sock source
  dest := some destination
  tee := none
  cleanup := [.shutdown destination, .close destination, .shutdown source, .close source]

/-- `forward_data_asynch(source_sock, destination_sock)`, lines 554–577: every buffer is also
written to `pfds[1]`, and a failed write is only reported. -/
def forwardDataAsynch (source destination : SockId) : Loop SockId Unit where
  entry := .read
  size := bufSize
  source := .sock source
  dest := some destination
  tee := some ()
  cleanup := [.shutdown destination, .close destination, .shutdown source, .close source]

/-- `forward_data_pipe(destination_sock)`, lines 580–595. -/
def forwardDataPipe (destination : SockId) : Loop SockId Unit where
  entry := .sleep
  size := bufSize
  source := .pipe ()
  dest := some destination
  tee := none
  cleanup := [.shutdown destination, .close destination]

/-- `receive_data_asynch(source_sock)`, lines 597–605. -/
def receiveDataAsynch (source : SockId) : Loop SockId Unit where
  entry := .read
  size := bufSize
  source := .sock source
  dest := none
  tee := none
  cleanup := [.shutdown source, .close source]

/-- The loop of each worker; `asynch` is the option `-a`. -/
def program (asynch : Bool) : Tid → Loop SockId Unit
  | .t1 => if asynch then forwardDataAsynch .client .remote else forwardData .client .remote
  | .t2 => forwardData .remote .client
  | .t3 => forwardDataPipe .duplicate
  | .t4 => receiveDataAsynch .duplicate

/-! ### `handle_client` -/

/-- A step of `handle_client` after the set-up. -/
inductive HandlerOp
  | fork (t : Tid)
  | close (i : SockId)
  deriving DecidableEq, Repr

/-- `handle_client` from line 334 on. -/
def handleClient : Bool → List HandlerOp
  | true =>
    [.fork .t1, .fork .t2, .fork .t3, .fork .t4, .close .remote, .close .client,
      .close .duplicate]
  | false => [.fork .t1, .fork .t2, .close .remote, .close .client, .close .duplicate]

/-- The process that runs `handle_client`, with what is left of it. -/
structure Handler where
  ops : List HandlerOp
  socks : SockId → Bool
  rd : Unit → Bool
  wr : Unit → Bool

/-- The state of a handled client: the handler is gone after its `exit(0)`, and a worker that has
not been forked is not there. -/
structure State where
  world : World SockId Unit
  handler : Option Handler
  worker : Tid → Option (Proc SockId Unit)

/-- What can happen: a peer acts, `handle_client` takes a step, a worker takes a step. -/
inductive Act
  | peer (i : SockId) (e : Sock.Peer)
  | handler
  | work (t : Tid) (c : Choice)
  deriving DecidableEq, Repr

/-- Some process has the read end of the pipe open. -/
def State.hasRd (s : State) (q : Unit) : Bool :=
  s.handler.any (·.rd q) || [Tid.t1, .t2, .t3, .t4].any fun t => (s.worker t).any (·.rd q)

/-- Some process has the write end of the pipe open. -/
def State.hasWr (s : State) (q : Unit) : Bool :=
  s.handler.any (·.wr q) || [Tid.t1, .t2, .t3, .t4].any fun t => (s.worker t).any (·.wr q)

/-- Replace one worker. -/
def State.setWorker (s : State) (t : Tid) (p : Proc SockId Unit) : State :=
  { s with worker := Function.update s.worker t (some p) }

@[simp] theorem State.setWorker_world (s : State) (t : Tid) (p : Proc SockId Unit) :
    (s.setWorker t p).world = s.world := rfl

@[simp] theorem State.setWorker_handler (s : State) (t : Tid) (p : Proc SockId Unit) :
    (s.setWorker t p).handler = s.handler := rfl

@[simp] theorem State.setWorker_worker_self (s : State) (t : Tid) (p : Proc SockId Unit) :
    (s.setWorker t p).worker t = some p := Function.update_self ..

theorem State.setWorker_worker_of_ne (s : State) {t u : Tid} (h : u ≠ t)
    (p : Proc SockId Unit) : (s.setWorker t p).worker u = s.worker u := Function.update_of_ne h ..

/-- The worker that a handler forks: at the start of its loop, with the handler's descriptors. -/
def Handler.child (h : Handler) (L : Loop SockId Unit) : Proc SockId Unit where
  pc := L.entry
  socks := h.socks
  rd := h.rd
  wr := h.wr

/-- One step of `handle_client`; the process exits after its last one. -/
def State.handlerStep (asynch : Bool) (s : State) : Option State :=
  match s.handler with
  | none => none
  | some h =>
    match h.ops with
    | [] => some { s with handler := none }
    | .fork t :: ops =>
      some (State.setWorker { s with handler := some { h with ops := ops } } t
        (h.child (program asynch t)))
    | .close i :: ops =>
      some { s with
        handler := some { h with ops := ops, socks := Function.update h.socks i false } }

/-- One step of a worker: a step of its loop, or `exit(0)` once the loop has returned. -/
def workerStep (L : Loop SockId Unit) (hasRd hasWr : Unit → Bool) (w : World SockId Unit)
    (p : Proc SockId Unit) (c : Choice) : Option (World SockId Unit × Proc SockId Unit) :=
  match p.pc, c with
  | .cleanup [], .run _ => some (w, Proc.release .exited)
  | _, c => L.step hasRd hasWr w p c

/-- The machine of one handled client. -/
def duplicator (asynch : Bool) : Machine State Act where
  step s
    | .peer i e => ((s.world.sock i).peer e).map fun x => { s with world := s.world.setSock i x }
    | .handler => s.handlerStep asynch
    | .work t c =>
      (s.worker t).bind fun p =>
        (workerStep (program asynch t) s.hasRd s.hasWr s.world p c).map fun x =>
          State.setWorker { s with world := x.1 } t x.2

/-- The state in which `handle_client` is about to fork its workers: it has both ends of the pipe
and all its sockets open. -/
def handling (asynch : Bool) (w : World SockId Unit) : State where
  world := w
  handler := some
    { ops := handleClient asynch, socks := fun _ => true, rd := fun _ => true, wr := fun _ => true }
  worker _ := none

/-! ### Inversion of the steps -/

section Inversion

variable {asynch : Bool} {s t : State}

theorem step_peer {i : SockId} {e : Sock.Peer}
    (h : (duplicator asynch).step s (.peer i e) = some t) :
    ∃ x, (s.world.sock i).peer e = some x ∧ t = { s with world := s.world.setSock i x } := by
  obtain ⟨x, hx, rfl⟩ := Option.map_eq_some_iff.mp h
  exact ⟨x, hx, rfl⟩

theorem step_handler (h : (duplicator asynch).step s .handler = some t) :
    ∃ H, s.handler = some H ∧
      (H.ops = [] ∧ t = { s with handler := none } ∨
        (∃ i ops, H.ops = .fork i :: ops ∧
          t = State.setWorker { s with handler := some { H with ops := ops } } i
            (H.child (program asynch i))) ∨
        ∃ i ops, H.ops = .close i :: ops ∧
          t = { s with
            handler := some { H with ops := ops, socks := Function.update H.socks i false } }) := by
  change s.handlerStep asynch = some t at h
  unfold State.handlerStep at h
  split at h
  · cases h
  · next H hH =>
    refine ⟨H, hH, ?_⟩
    split at h
    · next hops => exact Or.inl ⟨hops, (Option.some.inj h).symm⟩
    · next i ops hops => exact Or.inr (Or.inl ⟨i, ops, hops, (Option.some.inj h).symm⟩)
    · next i ops hops => exact Or.inr (Or.inr ⟨i, ops, hops, (Option.some.inj h).symm⟩)

/-- Before its loop has returned, a step of a worker is a step of its loop. -/
theorem workerStep_eq {L : Loop SockId Unit} {hasRd hasWr : Unit → Bool}
    {w : World SockId Unit} {p : Proc SockId Unit} {c : Choice} (hpc : p.pc ≠ .cleanup []) :
    workerStep L hasRd hasWr w p c = L.step hasRd hasWr w p c := by
  unfold workerStep
  split
  · next hnil => exact absurd hnil hpc
  · rfl

/-- A worker exits after its loop, or takes a step of it. -/
theorem workerStep_cases {L : Loop SockId Unit} {hasRd hasWr : Unit → Bool}
    {w w' : World SockId Unit} {p p' : Proc SockId Unit} {c : Choice}
    (h : workerStep L hasRd hasWr w p c = some (w', p')) :
    (∃ k, c = .run k ∧ p.pc = .cleanup [] ∧ w' = w ∧ p' = Proc.release .exited) ∨
      p.pc ≠ .cleanup [] ∧ L.step hasRd hasWr w p c = some (w', p') := by
  by_cases hpc : p.pc = .cleanup []
  · cases c with
    | run k =>
      simp only [workerStep, hpc, Option.some.injEq, Prod.mk.injEq] at h
      exact Or.inl ⟨k, rfl, hpc, h.1.symm, h.2.symm⟩
    | write ok => simp [workerStep, hpc, Loop.step] at h
  · exact Or.inr ⟨hpc, workerStep_eq hpc ▸ h⟩

theorem step_work_of {i : Tid} {c : Choice} {p p' : Proc SockId Unit} {w' : World SockId Unit}
    (hp : s.worker i = some p)
    (h : workerStep (program asynch i) s.hasRd s.hasWr s.world p c = some (w', p')) :
    (duplicator asynch).step s (.work i c) =
      some (State.setWorker { s with world := w' } i p') := by
  simp [duplicator, hp, h]

theorem step_work {i : Tid} {c : Choice} (h : (duplicator asynch).step s (.work i c) = some t) :
    ∃ p w' p', s.worker i = some p ∧
      workerStep (program asynch i) s.hasRd s.hasWr s.world p c = some (w', p') ∧
      t = State.setWorker { s with world := w' } i p' := by
  obtain ⟨p, hp, h⟩ := Option.bind_eq_some_iff.mp h
  obtain ⟨⟨w', p'⟩, hx, rfl⟩ := Option.map_eq_some_iff.mp h
  exact ⟨p, w', p', hp, hx, rfl⟩

end Inversion

end Parikshan.Duplicator
