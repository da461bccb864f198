import Parikshan.NioProxy.Relaying

/-!
# The server of the non-blocking proxy

A `TcpServer` runs a number of `TcpServerWorker`s, each a thread with a selector of its own. The
workers share a queue of handlers that have not been started, into which `start()` puts the
acceptor. In each round of its loop a worker takes at most one handler from the queue and registers
it with its selector, and then processes the keys that the selector returns: the acceptor accepts a
connection and puts a connector for it into the queue, and a connector relays. The handlers are
those of a `TcpProxy`.

An `IOException` in `register` or in `process` is caught there; a `RuntimeException` ends the
worker, and its selector is closed, which closes no channel. `shutdown()` interrupts the workers and
waits for them, one after the other, and then destroys the handlers that are left in the queue. A
call of a channel in a thread that has been interrupted may close the channel and throw.

Generations are the calls of `start()` that have started the server; a worker, a queue and an
acceptor belong to one. One thread at a time calls `start()` and `shutdown()`. Log messages are left
out.

## Main definitions

* `TcpServerConfig`, `TcpServerConfig.make`: the configuration, and the checks of its constructor.
* `State`: the server, its workers and their handlers.
* `State.start`, `State.shutdown`, `State.next`: the methods of `TcpServer`.
* `State.opening`, `State.loop`, `State.poll`, `State.register`, `State.select`, `State.accept`,
  `State.call`, `State.clear`: the steps of `run()`.
* `tcpProxy`: the machine of the server, its caller and the peers of its connections.

## Main results

* `trans_of_step`: inversion of a step.
-/

namespace Parikshan.NioProxy.Server

open Posix

/-- `TcpServerConfig`, less the factory of handlers. -/
structure TcpServerConfig where
  port : ℕ
  workerCount : ℕ
  pos : 1 ≤ workerCount

/-- The constructor, lines 28–41. -/
def TcpServerConfig.make (port workerCount : ℤ) : Except String TcpServerConfig :=
  if h : workerCount < 1 then .error "Count of workers should be at least 1!"
  else if port < 0 then .error "Port can't be negative!"
  else .ok { port := port.toNat, workerCount := workerCount.toNat, pos := by omega }

/-- A worker: its generation, and its index in `workers`. -/
abbrev Worker := ℕ × ℕ

/-- A handler: the acceptor of a generation, or a connector. Connectors are numbered as they are
created. -/
inductive Handler
  | acceptor (g : ℕ)
  | connector (c : ℕ)
  deriving DecidableEq, Repr

/-- A selected key, with the operations for which it is ready. -/
inductive Key
  | acceptor (g : ℕ)
  | connector (c : ℕ) (i : Side) (r : Ops)
  deriving DecidableEq, Repr

/-- The channel of a key. -/
def Key.channel : Key → ℕ ⊕ ℕ × Side
  | .acceptor g => .inl g
  | .connector c i _ => .inr (c, i)

/-- An operation of `process`. -/
inductive Call
  | accept (g : ℕ)
  | connector (c : ℕ) (x : Side × Op)
  deriving DecidableEq, Repr

/-- The operations for a key. -/
def Key.calls : Key → List Call
  | .acceptor g => [.accept g]
  | .connector c i r => (r.calls i).map (.connector c)

/-- The places in `run()` of a worker. -/
inductive Pc
  | unborn
  | opening
  | interrupted
  | poll
  | register (h : Handler)
  | select
  | process (calls : List Call)
  | terminated
  deriving DecidableEq, Repr

/-- The operations that a worker has yet to process. -/
def Pc.calls : Pc → List Call
  | .process cs => cs
  | _ => []

/-- An acceptor: constructed; with its channel registered with the selector of a worker, and open
or not; left without one by a `register` that has thrown an exception; or destroyed before that. -/
inductive Acceptor
  | absent
  | constructed
  | registered (w : Worker) (isOpen : Bool)
  | failed
  | destroyed
  deriving DecidableEq, Repr

/-- The channel is bound to the port. -/
def Acceptor.bound : Acceptor → Bool
  | .registered _ isOpen => isOpen
  | _ => false

/-- A connector: constructed for the channel of a client, which may be `null`; registered with the
selector of a worker; destroyed before that; or left behind, with its channel, by a `register` that
has thrown a `RuntimeException`. -/
inductive Connector
  | absent
  | constructed (client : Option Sock)
  | registered (w : Worker) (u : NioProxy.State)
  | destroyed
  | abandoned (client : Option Sock)

/-- The selector of a worker may return the key of a channel, ready for these operations. -/
def Connector.Selectable (w : Worker) (i : Side) (r : Ops) : Connector → Prop
  | .registered v u => v = w ∧ u.closed = none ∧ u.Ready i r
  | _ => False

instance (w : Worker) (i : Side) (r : Ops) : (x : Connector) → Decidable (x.Selectable w i r)
  | .registered _ _ => inferInstanceAs (Decidable (_ ∧ _ ∧ _))
  | .absent | .constructed _ | .destroyed | .abandoned _ => inferInstanceAs (Decidable False)

/-- The places in `shutdown()`: at a worker, which has been interrupted or not; at the queue. -/
inductive Main
  | idle
  | joining (i : ℕ) (interrupted : Bool)
  | draining
  deriving DecidableEq, Repr

/-- The server: the number of its generation; whether `workers` is not null; where its caller is,
and whether that has been interrupted; the queue and the acceptor of each generation; the workers,
and which of them have been interrupted; and the connectors. -/
structure State where
  gen : ℕ
  workers : Bool
  main : Main
  interrupted : Bool
  handlers : ℕ → List Handler
  acceptor : ℕ → Acceptor
  pc : Worker → Pc
  interrupts : Worker → Bool
  count : ℕ
  connector : ℕ → Connector

/-- A server that has not been started. -/
def State.new : State where
  gen := 0
  workers := false
  main := .idle
  interrupted := false
  handlers _ := []
  acceptor _ := .absent
  pc _ := .unborn
  interrupts _ := false
  count := 0
  connector _ := .absent

/-- How `register` ends: the channel is bound, or the connection to the server is there and so much
fits into its send buffer; or with an exception. -/
inductive Registration
  | registered (room : ℕ)
  | ioException
  | runtimeException
  deriving DecidableEq, Repr

/-- How the acceptor's `process` ends: `accept` returns a channel or `null`, throws, or throws and
closes the channel, for the worker has been interrupted; or the key is not valid. -/
inductive Acceptance
  | accepted (room : ℕ)
  | null
  | ioException
  | closedByInterrupt
  | invalid
  deriving DecidableEq, Repr

/-- What `accept` has returned. -/
def Acceptance.client : Acceptance → Option (Option Sock)
  | .accepted room => some (some { room := room })
  | .null => some none
  | _ => none

namespace State

variable (cfg : TcpServerConfig) (s : State) (w : Worker)

/-- A worker goes on. -/
def goto (p : Pc) : State := { s with pc := Function.update s.pc w p }

/-- What becomes of a connector. -/
def setConnector (c : ℕ) (x : Connector) : State :=
  { s with connector := Function.update s.connector c x }

/-- What becomes of an acceptor. -/
def setAcceptor (g : ℕ) (x : Acceptor) : State :=
  { s with acceptor := Function.update s.acceptor g x }

/-- What becomes of the queue of a generation. -/
def setHandlers (g : ℕ) (q : List Handler) : State :=
  { s with handlers := Function.update s.handlers g q }

/-- The workers are started, with a queue in which the acceptor is. -/
def started : State :=
  { s with
    gen := s.gen + 1
    workers := true
    acceptor := Function.update s.acceptor (s.gen + 1) .constructed
    handlers := Function.update s.handlers (s.gen + 1) [.acceptor (s.gen + 1)]
    pc := fun w => if w.1 = s.gen + 1 ∧ w.2 < cfg.workerCount then .opening else s.pc w }

/-- `start()`; a server that runs is not started. -/
def start : Option State :=
  if s.main ≠ .idle then none
  else if s.workers then some s
  else some (s.started cfg)

/-- `shutdown()` is called. -/
def shutdown : Option State :=
  if s.main ≠ .idle then none
  else if s.workers then some { s with main := .joining 0 false }
  else some s

/-- `destroy()` of a handler that has been in the queue. -/
def destroy : Handler → State
  | .acceptor g => s.setAcceptor g .destroyed
  | .connector c => s.setConnector c .destroyed

/-- The next step of `shutdown()`; `join` returns when the worker has terminated, or throws. -/
def next : Option State :=
  match s.main with
  | .idle => none
  | .joining i false =>
    if i < cfg.workerCount then
      some { s with
        interrupts := Function.update s.interrupts (s.gen, i) true
        main := .joining i true }
    else some { s with workers := false, main := .draining }
  | .joining i true =>
    if s.pc (s.gen, i) = .terminated ∨ s.interrupted = true then
      some { s with main := .joining (i + 1) false }
    else none
  | .draining =>
    match s.handlers s.gen with
    | [] => some { s with main := .idle }
    | h :: q => some ((s.setHandlers s.gen q).destroy h)

/-- `Selector.open()`. -/
def opening (ok : Bool) : Option State :=
  if s.pc w = .opening then some (s.goto w (if ok then .interrupted else .terminated)) else none

/-- `Thread.interrupted()`, which clears the status. -/
def loop : Option State :=
  if s.pc w = .interrupted then
    some ({ s with interrupts := Function.update s.interrupts w false }.goto w
      (if s.interrupts w then .terminated else .poll))
  else none

/-- `handlers.poll()`. -/
def poll : Option State :=
  if s.pc w = .poll then
    match s.handlers w.1 with
    | [] => some (s.goto w .select)
    | h :: q => some ((s.setHandlers w.1 q).goto w (.register h))
  else none

/-- No server channel is bound to the port; port 0 stands for any that is free. -/
def PortFree : Prop := cfg.port = 0 ∨ ∀ g ≤ s.gen, (s.acceptor g).bound = false

instance : Decidable (s.PortFree cfg) := inferInstanceAs (Decidable (_ ∨ _))

/-- `register(selector)` of the acceptor. The address is checked after the channel is opened. -/
def registerAcceptor (g : ℕ) : Registration → Option State
  | .registered _ =>
    if cfg.port ≤ 65535 ∧ s.PortFree cfg then
      some ((s.setAcceptor g (.registered w true)).goto w .select)
    else none
  | .ioException => some ((s.setAcceptor g .failed).goto w .select)
  | .runtimeException =>
    if 65535 < cfg.port then some ((s.setAcceptor g .failed).goto w .terminated) else none

/-- The channels of a connector: that of the client, and one that has just been connected. -/
def channels (x : Sock) (room : ℕ) : Side → Sock
  | .client => x
  | .server => { room := room }

/-- `register(selector)` of a connector. -/
def registerConnector (c : ℕ) (r : Registration) : Option State :=
  match s.connector c with
  | .constructed client =>
    match r, client with
    | .registered room, some x =>
      some ((s.setConnector c (.registered w (NioProxy.registered (channels x room)))).goto w
        .select)
    | .ioException, some _ => some ((s.setConnector c .destroyed).goto w .select)
    | .runtimeException, client =>
      some ((s.setConnector c (.abandoned client)).goto w .terminated)
    | _, none => none
  | _ => none

/-- `newHandler.register(selector)`. -/
def register (r : Registration) : Option State :=
  match s.pc w with
  | .register (.acceptor g) => s.registerAcceptor cfg w g r
  | .register (.connector c) => s.registerConnector w c r
  | _ => none

/-- The selector of a worker may return a key. -/
def Selectable : Key → Prop
  | .acceptor g => s.acceptor g = .registered w true
  | .connector c i r => (s.connector c).Selectable w i r

instance : (k : Key) → Decidable (s.Selectable w k)
  | .acceptor g => inferInstanceAs (Decidable (s.acceptor g = _))
  | .connector c i r => inferInstanceAs (Decidable ((s.connector c).Selectable w i r))

/-- `select` returns keys, in any order; or it throws. -/
def select (keys : Option (List Key)) : Option State :=
  if s.pc w = .select then
    match keys with
    | none => some (s.goto w .terminated)
    | some ks =>
      if (ks.map Key.channel).Nodup ∧ ∀ k ∈ ks, s.Selectable w k then
        some (s.goto w (.process (ks.flatMap Key.calls)))
      else none
  else none

/-- A connector for a channel is created and put into the queue. -/
def create (g : ℕ) (client : Option Sock) : State :=
  { s.setHandlers g (s.handlers g ++ [.connector s.count]) with
    connector := Function.update s.connector s.count (.constructed client)
    count := s.count + 1 }

/-- `process(key)` of the acceptor. -/
def accept (a : Acceptance) : Option State :=
  match s.pc w with
  | .process (.accept g :: cs) =>
    if (s.acceptor g).bound then
      match a.client, a with
      | some client, _ => some ((s.create g client).goto w (.process cs))
      | none, .closedByInterrupt =>
        if s.interrupts w then
          some ((s.setAcceptor g (.registered w false)).goto w (.process cs))
        else none
      | none, a => if a = .invalid then none else some (s.goto w (.process cs))
    else if a = .invalid then some (s.goto w (.process cs)) else none
  | _ => none

/-- An operation of `process(key)` of a connector. -/
def call (k : ℕ) : Option State :=
  match s.pc w with
  | .process (.connector c x :: cs) =>
    match s.connector c with
    | .registered v u =>
      ({ u with selected := [x] }.process k).map fun u' =>
        (s.setConnector c (.registered v u')).goto w (.process cs)
    | _ => none
  | _ => none

/-- The same in a worker that has been interrupted: the call of the channel closes it and throws. -/
def callInterrupted : Option State :=
  match s.pc w with
  | .process (.connector c x :: cs) =>
    match s.connector c with
    | .registered v u =>
      if s.interrupts w ∧ u.closed = none then
        some ((s.setConnector c (.registered v (u.destroy x.1 .closedByInterrupt))).goto w
          (.process cs))
      else none
    | _ => none
  | _ => none

/-- `keys.clear()`. -/
def clear : Option State :=
  if s.pc w = .process [] then some (s.goto w .interrupted) else none

/-- The peer of a channel acts. -/
def peer (c : ℕ) (i : Side) (ev : Sock.Peer) : Option State :=
  match s.connector c with
  | .constructed (some x) =>
    if i = .client then (x.peer ev).map fun y => s.setConnector c (.constructed (some y)) else none
  | .registered w u =>
    ((u.chan i).peer ev).map fun y => s.setConnector c (.registered w (u.acted i ev y))
  | _ => none

end State

/-- What can happen. -/
inductive Act
  | start
  | shutdown
  | next
  | interrupt
  | opening (w : Worker) (ok : Bool)
  | loop (w : Worker)
  | poll (w : Worker)
  | register (w : Worker) (r : Registration)
  | select (w : Worker) (keys : Option (List Key))
  | accept (w : Worker) (a : Acceptance)
  | call (w : Worker) (k : ℕ)
  | callInterrupted (w : Worker)
  | clear (w : Worker)
  | peer (c : ℕ) (i : Side) (ev : Sock.Peer)
  deriving DecidableEq, Repr

/-- The machine of a proxy. -/
def tcpProxy (cfg : TcpServerConfig) : Machine State Act where
  step s
    | .start => s.start cfg
    | .shutdown => s.shutdown
    | .next => s.next cfg
    | .interrupt => some { s with interrupted := true }
    | .opening w ok => s.opening w ok
    | .loop w => s.loop w
    | .poll w => s.poll w
    | .register w r => s.register cfg w r
    | .select w keys => s.select w keys
    | .accept w a => s.accept w a
    | .call w k => s.call w k
    | .callInterrupted w => s.callInterrupted w
    | .clear w => s.clear w
    | .peer c i ev => s.peer c i ev

/-! ### What a step can do -/

/-- What a step can do. -/
inductive Trans (cfg : TcpServerConfig) (s : State) : Act → State → Prop
  | refused {a : Act} (ha : a = .start ∨ a = .shutdown) : Trans cfg s a s
  | start (hmain : s.main = .idle) (hworkers : s.workers = false) :
      Trans cfg s .start (s.started cfg)
  | shutdown (hmain : s.main = .idle) (hworkers : s.workers = true) :
      Trans cfg s .shutdown { s with main := .joining 0 false }
  | interruptWorker {i : ℕ} (hmain : s.main = .joining i false) (hi : i < cfg.workerCount) :
      Trans cfg s .next { s with
        interrupts := Function.update s.interrupts (s.gen, i) true
        main := .joining i true }
  | joined {i : ℕ} (hmain : s.main = .joining i false) (hi : cfg.workerCount ≤ i) :
      Trans cfg s .next { s with workers := false, main := .draining }
  | join {i : ℕ} (hmain : s.main = .joining i true)
      (h : s.pc (s.gen, i) = .terminated ∨ s.interrupted = true) :
      Trans cfg s .next { s with main := .joining (i + 1) false }
  | drained (hmain : s.main = .draining) (hqueue : s.handlers s.gen = []) :
      Trans cfg s .next { s with main := .idle }
  | drain {h : Handler} {q : List Handler} (hmain : s.main = .draining)
      (hqueue : s.handlers s.gen = h :: q) :
      Trans cfg s .next ((s.setHandlers s.gen q).destroy h)
  | interrupt : Trans cfg s .interrupt { s with interrupted := true }
  | opening {w : Worker} {ok : Bool} (hpc : s.pc w = .opening) :
      Trans cfg s (.opening w ok) (s.goto w (if ok then .interrupted else .terminated))
  | loop {w : Worker} (hpc : s.pc w = .interrupted) :
      Trans cfg s (.loop w) ({ s with interrupts := Function.update s.interrupts w false }.goto w
        (if s.interrupts w then .terminated else .poll))
  | pollNull {w : Worker} (hpc : s.pc w = .poll) (hqueue : s.handlers w.1 = []) :
      Trans cfg s (.poll w) (s.goto w .select)
  | poll {w : Worker} {h : Handler} {q : List Handler} (hpc : s.pc w = .poll)
      (hqueue : s.handlers w.1 = h :: q) :
      Trans cfg s (.poll w) ((s.setHandlers w.1 q).goto w (.register h))
  | bind {w : Worker} {g room : ℕ} (hpc : s.pc w = .register (.acceptor g))
      (hfree : s.PortFree cfg) :
      Trans cfg s (.register w (.registered room))
        ((s.setAcceptor g (.registered w true)).goto w .select)
  | bindThrows {w : Worker} {g : ℕ} {r : Registration} {p : Pc}
      (hpc : s.pc w = .register (.acceptor g))
      (hr : r = .ioException ∧ p = .select ∨ r = .runtimeException ∧ p = .terminated) :
      Trans cfg s (.register w r) ((s.setAcceptor g .failed).goto w p)
  | connect {w : Worker} {c room : ℕ} {x : Sock} (hpc : s.pc w = .register (.connector c))
      (hc : s.connector c = .constructed (some x)) :
      Trans cfg s (.register w (.registered room))
        ((s.setConnector c (.registered w (NioProxy.registered (State.channels x room)))).goto w
          .select)
  | connectFails {w : Worker} {c : ℕ} {x : Sock} (hpc : s.pc w = .register (.connector c))
      (hc : s.connector c = .constructed (some x)) :
      Trans cfg s (.register w .ioException) ((s.setConnector c .destroyed).goto w .select)
  | connectThrows {w : Worker} {c : ℕ} {client : Option Sock}
      (hpc : s.pc w = .register (.connector c)) (hc : s.connector c = .constructed client) :
      Trans cfg s (.register w .runtimeException)
        ((s.setConnector c (.abandoned client)).goto w .terminated)
  | selectThrows {w : Worker} (hpc : s.pc w = .select) :
      Trans cfg s (.select w none) (s.goto w .terminated)
  | select {w : Worker} {ks : List Key} (hpc : s.pc w = .select)
      (hnodup : (ks.map Key.channel).Nodup) (hks : ∀ k ∈ ks, s.Selectable w k) :
      Trans cfg s (.select w (some ks)) (s.goto w (.process (ks.flatMap Key.calls)))
  | accept {w : Worker} {g : ℕ} {a : Acceptance} {client : Option Sock} {cs : List Call}
      (hpc : s.pc w = .process (.accept g :: cs)) (hbound : (s.acceptor g).bound = true)
      (ha : a.client = some client) :
      Trans cfg s (.accept w a) ((s.create g client).goto w (.process cs))
  | acceptInterrupted {w : Worker} {g : ℕ} {cs : List Call}
      (hpc : s.pc w = .process (.accept g :: cs)) (hbound : (s.acceptor g).bound = true)
      (hinterrupt : s.interrupts w = true) :
      Trans cfg s (.accept w .closedByInterrupt)
        ((s.setAcceptor g (.registered w false)).goto w (.process cs))
  | acceptNothing {w : Worker} {g : ℕ} {a : Acceptance} {cs : List Call}
      (hpc : s.pc w = .process (.accept g :: cs)) (ha : a.client = none) :
      Trans cfg s (.accept w a) (s.goto w (.process cs))
  | call {w v : Worker} {k c : ℕ} {x : Side × Op} {cs : List Call} {u u' : NioProxy.State}
      (hpc : s.pc w = .process (.connector c x :: cs)) (hc : s.connector c = .registered v u)
      (h : ({ u with selected := [x] } : NioProxy.State).process k = some u') :
      Trans cfg s (.call w k) ((s.setConnector c (.registered v u')).goto w (.process cs))
  | callInterrupted {w v : Worker} {c : ℕ} {x : Side × Op} {cs : List Call} {u : NioProxy.State}
      (hpc : s.pc w = .process (.connector c x :: cs)) (hc : s.connector c = .registered v u)
      (hinterrupt : s.interrupts w = true) (hopen : u.closed = none) :
      Trans cfg s (.callInterrupted w)
        ((s.setConnector c (.registered v (u.destroy x.1 .closedByInterrupt))).goto w
          (.process cs))
  | clear {w : Worker} (hpc : s.pc w = .process []) :
      Trans cfg s (.clear w) (s.goto w .interrupted)
  | peerClient {c : ℕ} {ev : Sock.Peer} {x y : Sock}
      (hc : s.connector c = .constructed (some x)) (h : x.peer ev = some y) :
      Trans cfg s (.peer c .client ev) (s.setConnector c (.constructed (some y)))
  | peer {c : ℕ} {i : Side} {ev : Sock.Peer} {w : Worker} {u : NioProxy.State} {y : Sock}
      (hc : s.connector c = .registered w u) (h : (u.chan i).peer ev = some y) :
      Trans cfg s (.peer c i ev) (s.setConnector c (.registered w (u.acted i ev y)))

section Trans

variable {cfg : TcpServerConfig} {s t : State} {w : Worker}

theorem trans_start (h : s.start cfg = some t) : Trans cfg s .start t := by
  unfold State.start at h
  split_ifs at h with hmain hworkers
  · exact Option.some.inj h ▸ .refused (.inl rfl)
  · exact Option.some.inj h ▸ .start (not_not.mp hmain) (Bool.eq_false_iff.mpr hworkers)

theorem trans_shutdown (h : s.shutdown = some t) : Trans cfg s .shutdown t := by
  unfold State.shutdown at h
  split_ifs at h with hmain hworkers
  · exact Option.some.inj h ▸ .shutdown (not_not.mp hmain) hworkers
  · exact Option.some.inj h ▸ .refused (.inr rfl)

theorem trans_next (h : s.next cfg = some t) : Trans cfg s .next t := by
  unfold State.next at h
  split at h
  · cases h
  · next i hmain =>
    split_ifs at h with hi
    · exact Option.some.inj h ▸ .interruptWorker hmain hi
    · exact Option.some.inj h ▸ .joined hmain (not_lt.mp hi)
  · next i hmain =>
    split_ifs at h with hjoin
    exact Option.some.inj h ▸ .join hmain hjoin
  · next hmain =>
    split at h
    · next hqueue => exact Option.some.inj h ▸ .drained hmain hqueue
    · next hqueue => exact Option.some.inj h ▸ .drain hmain hqueue

theorem trans_poll (h : s.poll w = some t) : Trans cfg s (.poll w) t := by
  unfold State.poll at h
  split_ifs at h with hpc
  split at h
  · next hqueue => exact Option.some.inj h ▸ .pollNull hpc hqueue
  · next hqueue => exact Option.some.inj h ▸ .poll hpc hqueue

theorem trans_register {r : Registration} (h : s.register cfg w r = some t) :
    Trans cfg s (.register w r) t := by
  unfold State.register at h
  split at h
  · next hpc =>
    cases r with
    | registered room =>
      obtain ⟨⟨-, hfree⟩, heq⟩ := Option.ite_none_right_eq_some.mp h
      exact Option.some.inj heq ▸ .bind hpc hfree
    | ioException => exact Option.some.inj h ▸ .bindThrows hpc (.inl ⟨rfl, rfl⟩)
    | runtimeException =>
      obtain ⟨-, heq⟩ := Option.ite_none_right_eq_some.mp h
      exact Option.some.inj heq ▸ .bindThrows hpc (.inr ⟨rfl, rfl⟩)
  · next c hpc =>
    unfold State.registerConnector at h
    split at h
    · next client hc =>
      split at h
      · exact Option.some.inj h ▸ .connect hpc hc
      · exact Option.some.inj h ▸ .connectFails hpc hc
      · exact Option.some.inj h ▸ .connectThrows hpc hc
      · cases h
    · cases h
  · cases h

theorem trans_select {keys : Option (List Key)} (h : s.select w keys = some t) :
    Trans cfg s (.select w keys) t := by
  unfold State.select at h
  split_ifs at h with hpc
  split at h
  · exact Option.some.inj h ▸ .selectThrows hpc
  · obtain ⟨⟨hnodup, hks⟩, heq⟩ := Option.ite_none_right_eq_some.mp h
    exact Option.some.inj heq ▸ .select hpc hnodup hks

theorem trans_accept {a : Acceptance} (h : s.accept w a = some t) :
    Trans cfg s (.accept w a) t := by
  unfold State.accept at h
  split at h
  · next g cs hpc =>
    by_cases hbound : (s.acceptor g).bound = true
    · rw [if_pos hbound] at h
      split at h
      · next client ha => exact Option.some.inj h ▸ .accept hpc hbound ha
      · obtain ⟨hinterrupt, heq⟩ := Option.ite_none_right_eq_some.mp h
        exact Option.some.inj heq ▸ .acceptInterrupted hpc hbound hinterrupt
      · next ha =>
        obtain ⟨-, heq⟩ := Option.ite_none_left_eq_some.mp h
        exact Option.some.inj heq ▸ .acceptNothing hpc ha
    · rw [if_neg hbound] at h
      obtain ⟨rfl, heq⟩ := Option.ite_none_right_eq_some.mp h
      exact Option.some.inj heq ▸ .acceptNothing hpc rfl
  · cases h

theorem trans_call {k : ℕ} (h : s.call w k = some t) : Trans cfg s (.call w k) t := by
  unfold State.call at h
  split at h
  · next hpc =>
    split at h
    · next hc =>
      obtain ⟨u', hu', rfl⟩ := Option.map_eq_some_iff.mp h
      exact .call hpc hc hu'
    · cases h
  · cases h

theorem trans_callInterrupted (h : s.callInterrupted w = some t) :
    Trans cfg s (.callInterrupted w) t := by
  unfold State.callInterrupted at h
  split at h
  · next hpc =>
    split at h
    · next hc =>
      obtain ⟨⟨hinterrupt, hopen⟩, heq⟩ := Option.ite_none_right_eq_some.mp h
      exact Option.some.inj heq ▸ .callInterrupted hpc hc hinterrupt hopen
    · cases h
  · cases h

theorem trans_peer {c : ℕ} {i : Side} {ev : Sock.Peer} (h : s.peer c i ev = some t) :
    Trans cfg s (.peer c i ev) t := by
  unfold State.peer at h
  split at h
  · next hc =>
    split_ifs at h with hi
    obtain ⟨y, hy, rfl⟩ := Option.map_eq_some_iff.mp h
    subst hi
    exact .peerClient hc hy
  · next hc =>
    obtain ⟨y, hy, rfl⟩ := Option.map_eq_some_iff.mp h
    exact .peer hc hy
  · cases h

/-- **Inversion of a step.** -/
theorem trans_of_step {a : Act} (h : (tcpProxy cfg).step s a = some t) : Trans cfg s a t := by
  cases a with
  | start => exact trans_start h
  | shutdown => exact trans_shutdown h
  | next => exact trans_next h
  | interrupt => exact Option.some.inj h ▸ .interrupt
  | opening w ok =>
    obtain ⟨hpc, heq⟩ := Option.ite_none_right_eq_some.mp h
    exact Option.some.inj heq ▸ .opening hpc
  | loop w =>
    obtain ⟨hpc, heq⟩ := Option.ite_none_right_eq_some.mp h
    exact Option.some.inj heq ▸ .loop hpc
  | poll w => exact trans_poll h
  | register w r => exact trans_register h
  | select w keys => exact trans_select h
  | accept w a => exact trans_accept h
  | call w k => exact trans_call h
  | callInterrupted w => exact trans_callInterrupted h
  | clear w =>
    obtain ⟨hpc, heq⟩ := Option.ite_none_right_eq_some.mp h
    exact Option.some.inj heq ▸ .clear hpc
  | peer c i ev => exact trans_peer h

end Trans

end Parikshan.NioProxy.Server
