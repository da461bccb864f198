import Parikshan.Machine.Basic
import Parikshan.NioProxy.ProxyBuffer

/-!
# A connector of the non-blocking proxy

A `TcpProxyConnector` relays between a client and a server on two channels in non-blocking mode,
with a buffer for each direction. It tells the selector in which operations it is interested: to
read from a channel while the buffer for the other one is empty, and to write to a channel while the
buffer for it holds something. The worker calls `process` for the keys that the selector returns,
one after another; in between, the peers do what they like. An exception closes both channels, and
the keys that have been returned with it are not valid any more.

Runs start when `register(selector)` has connected to the server. Log messages are left out.

## Main definitions

* `State`: a connector with its channels, and the keys that its worker has yet to process.
* `State.readFrom`, `State.writeTo`: `readFromClient`, `readFromServer`, `writeToClient` and
  `writeToServer`.
* `State.process`: what `process` does with the next operation.
* `connector`: the machine of a connector, its worker and its peers.

## Main results

* `trans_of_step`: inversion of a step.
-/

namespace Parikshan.NioProxy

open Posix

/-- The two ends of a connector. -/
inductive Side
  | client
  | server
  deriving DecidableEq, Repr

/-- The other end. -/
def Side.other : Side → Side
  | .client => .server
  | .server => .client

@[simp] theorem Side.other_other (i : Side) : i.other.other = i := by cases i <;> rfl

@[simp] theorem Side.other_ne (i : Side) : i.other ≠ i := by cases i <;> decide

@[simp] theorem Side.ne_other (i : Side) : i ≠ i.other := by cases i <;> decide

theorem Side.eq_or_eq_other (i j : Side) : j = i ∨ j = i.other := by cases i <;> cases j <;> decide

/-- `OP_READ` and `OP_WRITE`. -/
inductive Op
  | read
  | write
  deriving DecidableEq, Repr

/-- A set of operations: what a key is interested in, or ready for. -/
structure Ops where
  read : Bool
  write : Bool
  deriving DecidableEq, Repr

/-- The operations of a key for which `process` checks, in its order. -/
def Ops.calls (i : Side) (r : Ops) : List (Side × Op) :=
  (if r.read then [(i, .read)] else []) ++ if r.write then [(i, .write)] else []

/-- A connector: its channels; `clientBuffer` and `serverBuffer`, with what is to be written to the
client and to the server; the interest set of its keys; the operations of the keys returned by the
selector that have yet to be processed; the channel and the exception for which it has been
destroyed; and what the peers have sent. -/
structure State where
  chan : Side → Sock
  buffer : Side → TcpProxyBuffer
  interest : Side → Ops
  selected : List (Side × Op)
  closed : Option (Side × Exc)
  said : Side → List Byte

namespace State

variable (s : State)

/-- `register()`: the interest set of a channel, lines 67–77. -/
def ops (i : Side) : Ops where
  read := (s.buffer i.other).isReadyToWrite
  write := (s.buffer i).isReadyToRead

/-- `register()`, if a condition holds. -/
def registerIf (b : Bool) : State := if b then { s with interest := s.ops } else s

/-- `destroy()`: both channels are closed. -/
def destroy (i : Side) (e : Exc) : State :=
  { s with chan := fun j => (s.chan j).shutdown, closed := some (i, e) }

/-- Read from a channel into the buffer for the other one. -/
def readFrom (i : Side) (k : ℕ) : Option State :=
  ((s.buffer i.other).writeFrom k (s.chan i)).map fun z =>
    match z with
    | (.ok b, y) =>
      { s with
        chan := Function.update s.chan i y
        buffer := Function.update s.buffer i.other b }.registerIf b.isReadyToRead
    | (.error e, y) => { s with chan := Function.update s.chan i y }.destroy i e

/-- Write to a channel from the buffer for it. -/
def writeTo (i : Side) (k : ℕ) : Option State :=
  ((s.buffer i).writeTo k (s.chan i)).map fun z =>
    match z with
    | (.ok b, y) =>
      { s with
        chan := Function.update s.chan i y
        buffer := Function.update s.buffer i b }.registerIf b.isReadyToWrite
    | (.error e, y) => { s with chan := Function.update s.chan i y }.destroy i e

/-- `readFromClient()`, lines 47–50. -/
def readFromClient (k : ℕ) : Option State := s.readFrom .client k

/-- `readFromServer()`, lines 52–55. -/
def readFromServer (k : ℕ) : Option State := s.readFrom .server k

/-- `writeToClient()`, lines 57–60. -/
def writeToClient (k : ℕ) : Option State := s.writeTo .client k

/-- `writeToServer()`, lines 62–65. -/
def writeToServer (k : ℕ) : Option State := s.writeTo .server k

/-- An operation of `process(key)`, lines 114–136, for a valid key. -/
def call (k : ℕ) : Side × Op → Option State
  | (.client, .read) => s.readFromClient k
  | (.client, .write) => s.writeToClient k
  | (.server, .read) => s.readFromServer k
  | (.server, .write) => s.writeToServer k

/-- The next operation; once the channels have been closed, no key is valid. -/
def process (k : ℕ) : Option State :=
  match s.selected with
  | [] => none
  | c :: cs =>
    if s.closed.isSome then some { s with selected := cs }
    else { s with selected := cs }.call k c

/-- A key is ready for these operations. -/
def Ready (i : Side) (r : Ops) : Prop :=
  (r.read = true → (s.interest i).read = true ∧ Nio.Readable (s.chan i)) ∧
    (r.write = true → (s.interest i).write = true ∧ Nio.Writable (s.chan i))

instance (i : Side) (r : Ops) : Decidable (s.Ready i r) :=
  inferInstanceAs (Decidable ((_ → _ ∧ _) ∧ (_ → _ ∧ _)))

/-- `select` returns the keys of the two channels, in any order, with the operations for which they
are ready. -/
def select (first : Side) (r r' : Ops) : Option State :=
  if s.selected = [] ∧ s.closed = none ∧ s.Ready first r ∧ s.Ready first.other r' then
    some { s with selected := r.calls first ++ r'.calls first.other }
  else none

/-- A peer acts. -/
def acted (i : Side) (ev : Sock.Peer) (x : Sock) : State :=
  { s with
    chan := Function.update s.chan i x
    said := Function.update s.said i (s.said i ++ ev.payload) }

end State

/-- What can happen: a peer acts, the selector returns, the worker processes an operation. -/
inductive Act
  | peer (i : Side) (ev : Sock.Peer)
  | select (first : Side) (r r' : Ops)
  | process (k : ℕ)
  deriving DecidableEq, Repr

/-- The machine of a connector. -/
def connector : Machine State Act where
  step s
    | .peer i ev => ((s.chan i).peer ev).map fun x => s.acted i ev x
    | .select first r r' => s.select first r r'
    | .process k => s.process k

/-- A connector that has been registered. -/
def registered (w : Side → Sock) : State where
  chan := w
  buffer _ := .new
  interest _ := { read := true, write := false }
  selected := []
  closed := none
  said i := (w i).inq

/-! ### What a step can do -/

/-- What a step can do. -/
inductive Trans (s : State) : Act → State → Prop
  | peer {i : Side} {ev : Sock.Peer} {x : Sock} (h : (s.chan i).peer ev = some x) :
      Trans s (.peer i ev) (s.acted i ev x)
  | select {first : Side} {r r' : Ops} (hselected : s.selected = []) (hopen : s.closed = none)
      (h : s.Ready first r) (h' : s.Ready first.other r') :
      Trans s (.select first r r')
        { s with selected := r.calls first ++ r'.calls first.other }
  | skip {k : ℕ} {c : Side × Op} {cs : List (Side × Op)} (hselected : s.selected = c :: cs)
      (hclosed : s.closed.isSome = true) : Trans s (.process k) { s with selected := cs }
  | read {k : ℕ} {i : Side} {cs : List (Side × Op)} {b : TcpProxyBuffer} {y : Sock}
      (hselected : s.selected = (i, .read) :: cs) (hopen : s.closed = none)
      (h : (s.buffer i.other).writeFrom k (s.chan i) = some (.ok b, y)) :
      Trans s (.process k)
        ({ s with
            selected := cs
            chan := Function.update s.chan i y
            buffer := Function.update s.buffer i.other b }.registerIf b.isReadyToRead)
  | readThrows {k : ℕ} {i : Side} {cs : List (Side × Op)} {e : Exc} {y : Sock}
      (hselected : s.selected = (i, .read) :: cs) (hopen : s.closed = none)
      (h : (s.buffer i.other).writeFrom k (s.chan i) = some (.error e, y)) :
      Trans s (.process k)
        ({ s with selected := cs, chan := Function.update s.chan i y }.destroy i e)
  | write {k : ℕ} {i : Side} {cs : List (Side × Op)} {b : TcpProxyBuffer} {y : Sock}
      (hselected : s.selected = (i, .write) :: cs) (hopen : s.closed = none)
      (h : (s.buffer i).writeTo k (s.chan i) = some (.ok b, y)) :
      Trans s (.process k)
        ({ s with
            selected := cs
            chan := Function.update s.chan i y
            buffer := Function.update s.buffer i b }.registerIf b.isReadyToWrite)
  | writeThrows {k : ℕ} {i : Side} {cs : List (Side × Op)} {e : Exc} {y : Sock}
      (hselected : s.selected = (i, .write) :: cs) (hopen : s.closed = none)
      (h : (s.buffer i).writeTo k (s.chan i) = some (.error e, y)) :
      Trans s (.process k)
        ({ s with selected := cs, chan := Function.update s.chan i y }.destroy i e)

section Trans

variable {s t : State} {a : Act}

/-- The methods for the two sides. -/
theorem State.call_read (s : State) (i : Side) (k : ℕ) :
    s.call k (i, .read) = s.readFrom i k := by
  cases i <;> rfl

theorem State.call_write (s : State) (i : Side) (k : ℕ) :
    s.call k (i, .write) = s.writeTo i k := by
  cases i <;> rfl

/-- **Inversion of a step.** -/
theorem trans_of_step (h : connector.step s a = some t) : Trans s a t := by
  cases a with
  | peer i ev =>
    obtain ⟨x, hx, rfl⟩ := Option.map_eq_some_iff.mp h
    exact .peer hx
  | select first r r' =>
    obtain ⟨⟨hselected, hopen, hr, hr'⟩, heq⟩ := Option.ite_none_right_eq_some.mp h
    exact Option.some.inj heq ▸ .select hselected hopen hr hr'
  | process k =>
    change s.process k = some t at h
    unfold State.process at h
    split at h
    · cases h
    · next c cs hselected =>
      split_ifs at h with hclosed
      · exact Option.some.inj h ▸ .skip hselected hclosed
      · have hopen : s.closed = none := by simpa using hclosed
        obtain ⟨i, op⟩ := c
        cases op with
        | read =>
          rw [State.call_read] at h
          obtain ⟨⟨r, y⟩, hz, heq⟩ := Option.map_eq_some_iff.mp h
          cases r with
          | ok b => exact heq ▸ .read hselected hopen hz
          | error e => exact heq ▸ .readThrows hselected hopen hz
        | write =>
          rw [State.call_write] at h
          obtain ⟨⟨r, y⟩, hz, heq⟩ := Option.map_eq_some_iff.mp h
          cases r with
          | ok b => exact heq ▸ .write hselected hopen hz
          | error e => exact heq ▸ .writeThrows hselected hopen hz

end Trans

end Parikshan.NioProxy
