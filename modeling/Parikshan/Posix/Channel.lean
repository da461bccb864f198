import Mathlib.Data.List.Basic
import Mathlib.Tactic.Common

/-!
# Stream sockets and pipes

A process sees a connected stream socket through `recv`, `send` and `shutdown`, and its peer acts
on it from the other side. Calls that the kernel may split or delay are labelled with what the
kernel does: a `recv` with the number of bytes it returns, a `send` (one call, many steps) with
the number of bytes it copies next. A step that returns `none` blocks.

A pipe is a bounded queue of bytes. A write of at most `PIPE_BUF` bytes on an `O_NONBLOCK` end is
all or nothing and returns at once; a read on an empty pipe ends the stream only if no process
holds the write end.

## Main definitions

* `Sock`, `Sock.recv`, `Sock.send`, `Sock.shutdown`, `Sock.peer`.
* `Sock.sent`: the bytes the kernel has accepted for transmission, in order.
* `Pipe`, `Pipe.write`, `Pipe.read`.
-/

namespace Parikshan.Posix

abbrev Byte := UInt8

/-- What a call that reads returns: a positive count with the bytes, `0`, or `-1`. -/
inductive Ret
  | bytes (bs : List Byte)
  | eof
  | error
  deriving DecidableEq, Repr

/-! ### Sockets -/

/-- What processes have issued on a socket. -/
inductive Issue
  | bytes (bs : List Byte)
  | shutdown
  deriving DecidableEq, Repr

/-- The bytes of an issued item. -/
def Issue.payload : Issue → List Byte
  | .bytes bs => bs
  | .shutdown => []

/-- A connected stream socket, shared by all processes that hold a descriptor of it. -/
structure Sock where
  /-- bytes that have arrived and have not been received -/
  inq : List Byte := []
  /-- the peer has ended its sending direction -/
  fin : Bool := false
  /-- the peer has reset the connection -/
  rst : Bool := false
  /-- `ECONNRESET` is pending: the next call that can report it does -/
  err : Bool := false
  /-- free space of the send buffer -/
  room : ℕ := 0
  /-- the bytes accepted for transmission and the shutdowns, in order -/
  issued : List Issue := []
  /-- `shutdown(SHUT_RDWR)` has been called -/
  shut : Bool := false
  deriving DecidableEq, Repr

namespace Sock

/-- The bytes accepted for transmission, in order. -/
def sent (s : Sock) : List Byte := s.issued.flatMap Issue.payload

/-- `recv(fd, buffer, len, 0)`: `k` bytes if any have arrived, else an error or the end of the
stream, which the peer may have ended before it has reset the connection; it blocks while the
connection is open and nothing has arrived. -/
def recv (len k : ℕ) (s : Sock) : Option (Ret × Sock) :=
  if s.inq = [] then
    if s.err && !s.fin then some (.error, { s with err := false })
    else if s.fin || s.rst || s.shut then some (.eof, s)
    else none
  else if 0 < k ∧ k ≤ len ∧ k ≤ s.inq.length then
    some (.bytes (s.inq.take k), { s with inq := s.inq.drop k })
  else none

/-- How a step of a `send` call leaves the call. -/
inductive Sending
  | more (rest : List Byte)
  | returned
  | sigpipe
  deriving DecidableEq, Repr

/-- One step of `send(fd, buf, n, 0)` with `rest` still to be copied: `k` more bytes fit in the
send buffer. On a socket that can no longer send, a call that has copied something returns a
short count; one that has not returns a pending error or raises `SIGPIPE`. -/
def send (k : ℕ) (buf rest : List Byte) (s : Sock) : Option (Sending × Sock) :=
  if s.shut || s.rst then
    if rest.length < buf.length then some (.returned, s)
    else if s.err then some (.returned, { s with err := false })
    else some (.sigpipe, s)
  else if 0 < k ∧ k ≤ rest.length ∧ k ≤ s.room then
    some (if k = rest.length then .returned else .more (rest.drop k),
      { s with room := s.room - k, issued := s.issued ++ [.bytes (rest.take k)] })
  else none

/-- `shutdown(fd, SHUT_RDWR)`. -/
def shutdown (s : Sock) : Sock := { s with issued := s.issued ++ [.shutdown], shut := true }

/-- What the peer of a socket can do. -/
inductive Peer
  | deliver (bs : List Byte)
  | fin
  | reset
  | drain (k : ℕ)
  deriving DecidableEq, Repr

/-- The effect of the peer's actions. Bytes that arrive after `shutdown(SHUT_RDWR)` are lost. The
reset by which the kernel answers them is left out: the peer may lose by it what it has been sent
and has not received yet. A reset that comes after the end of the stream leaves no error, unless
this end has been shut down as well: the next `send` raises `SIGPIPE`. -/
def peer (s : Sock) : Peer → Option Sock
  | .deliver bs =>
    if s.fin || s.rst then none
    else if s.shut then some s
    else some { s with inq := s.inq ++ bs }
  | .fin => if s.fin || s.rst then none else some { s with fin := true }
  | .reset => if s.rst then none else some { s with rst := true, err := !s.fin || s.shut }
  | .drain k => some { s with room := s.room + k }

@[simp] theorem shutdown_sent (s : Sock) : s.shutdown.sent = s.sent := by
  simp [sent, shutdown, Issue.payload]

theorem sent_append_bytes (s : Sock) (k : ℕ) (bs : List Byte) :
    sent { s with room := k, issued := s.issued ++ [.bytes bs] } = s.sent ++ bs := by
  simp [sent, Issue.payload]

/-- A `recv` that returns data returns a nonempty prefix of what has arrived. -/
theorem recv_bytes {s t : Sock} {len k : ℕ} {bs : List Byte}
    (h : s.recv len k = some (.bytes bs, t)) :
    bs ≠ [] ∧ bs.length ≤ len ∧ s.inq = bs ++ t.inq ∧ t = { s with inq := t.inq } := by
  unfold recv at h
  split_ifs at h with hq he hf hk <;> simp only [Option.some.injEq, Prod.mk.injEq,
    Ret.bytes.injEq, reduceCtorEq, false_and] at h
  obtain ⟨rfl, rfl⟩ := h
  refine ⟨?_, ?_, by simp, rfl⟩
  · intro hnil
    have hlen := congrArg List.length hnil
    simp only [List.length_take, List.length_nil] at hlen
    omega
  · simp only [List.length_take]
    omega

/-- A `recv` returns no data only on a socket that has ended, and leaves all but the pending
error as it was. -/
theorem recv_end {s t : Sock} {len k : ℕ} {r : Ret} (hr : ∀ bs, r ≠ .bytes bs)
    (h : s.recv len k = some (r, t)) :
    s.inq = [] ∧ (s.err ∨ s.fin ∨ s.rst ∨ s.shut) ∧ t = { s with err := t.err } := by
  unfold recv at h
  split_ifs at h with hq he hf hk <;> simp only [Option.some.injEq, Prod.mk.injEq] at h
  · obtain ⟨-, rfl⟩ := h
    exact ⟨hq, Or.inl (Bool.and_eq_true_iff.mp he).1, rfl⟩
  · obtain ⟨-, rfl⟩ := h
    exact ⟨hq, Or.inr (by simpa [or_assoc] using hf), rfl⟩
  · exact absurd h.1.symm (hr _)

/-- A step of `send` on an open socket copies a nonempty piece of what is left and either ends
the call or goes on with the rest. -/
theorem send_open {s t : Sock} {k : ℕ} {buf rest : List Byte} {r : Sending}
    (hs : s.shut = false) (hr : s.rst = false) (h : s.send k buf rest = some (r, t)) :
    ∃ room, t = { s with room := room, issued := s.issued ++ [.bytes (rest.take k)] } ∧
      (r = .returned ∧ rest.take k = rest ∨ r = .more (rest.drop k) ∧ k < rest.length) := by
  have hcond : (s.shut || s.rst) = false := by rw [hs, hr]; rfl
  simp only [send, hcond, Bool.false_eq_true, if_false] at h
  split_ifs at h with hk hlen <;> simp only [Option.some.injEq, Prod.mk.injEq] at h <;>
    obtain ⟨rfl, rfl⟩ := h
  · exact ⟨_, rfl, Or.inl ⟨rfl, by rw [hlen, List.take_length]⟩⟩
  · exact ⟨_, rfl, Or.inr ⟨rfl, Nat.lt_of_le_of_ne hk.2.1 hlen⟩⟩

/-- On a socket that can no longer send, no byte is accepted. -/
theorem send_closed {s t : Sock} {k : ℕ} {buf rest : List Byte} {r : Sending}
    (hs : s.shut = true ∨ s.rst = true) (h : s.send k buf rest = some (r, t)) :
    t = { s with err := t.err } ∧ ∀ rest', r ≠ .more rest' := by
  have hcond : (s.shut || s.rst) = true := by simpa using hs
  simp only [send, hcond, if_true] at h
  split_ifs at h <;> simp only [Option.some.injEq, Prod.mk.injEq] at h <;>
    obtain ⟨rfl, rfl⟩ := h <;> exact ⟨rfl, by simp⟩

/-- The peer has neither closed nor reset the connection. -/
structure Live (s : Sock) : Prop where
  fin : s.fin = false
  rst : s.rst = false
  err : s.err = false

/-- A socket on which nothing can be sent any more. -/
def Closed (s : Sock) : Prop := s.shut = true ∨ s.rst = true

/-- A `recv` takes bytes off the queue or clears a pending error, and does nothing else. -/
theorem recv_eq {s t : Sock} {len k : ℕ} {r : Ret} (h : s.recv len k = some (r, t)) :
    t = { s with inq := t.inq, err := t.err } ∧ (t.err = s.err ∨ t.err = false) := by
  unfold recv at h
  split_ifs at h <;> simp only [Option.some.injEq, Prod.mk.injEq] at h <;>
    obtain ⟨-, rfl⟩ := h <;> simp

/-- A `send` touches the send buffer or clears a pending error, and does nothing else. -/
theorem send_eq {s t : Sock} {k : ℕ} {buf rest : List Byte} {r : Sending}
    (h : s.send k buf rest = some (r, t)) :
    t = { s with room := t.room, issued := t.issued, err := t.err } ∧
      (t.err = s.err ∨ t.err = false) := by
  unfold send at h
  split_ifs at h <;> simp only [Option.some.injEq, Prod.mk.injEq] at h <;>
    obtain ⟨-, rfl⟩ := h <;> simp

/-- The peer touches neither what has been issued on a socket nor its shutdown. -/
theorem peer_eq {s t : Sock} {e : Peer} (h : s.peer e = some t) :
    t.issued = s.issued ∧ t.shut = s.shut := by
  cases e with
  | drain k =>
    simp only [peer, Option.some.injEq] at h
    subst h
    exact ⟨rfl, rfl⟩
  | _ =>
    simp only [peer] at h
    split_ifs at h <;> simp only [Option.some.injEq] at h <;> subst h <;> exact ⟨rfl, rfl⟩

/-- What can not be sent on stays so, whatever the peer does. -/
theorem Closed.peer {s t : Sock} {e : Peer} (hs : s.Closed) (h : s.peer e = some t) :
    t.Closed := by
  cases e with
  | drain k =>
    simp only [Sock.peer, Option.some.injEq] at h
    subst h
    exact hs
  | reset =>
    simp only [Sock.peer] at h
    split_ifs at h
    simp only [Option.some.injEq] at h
    subst h
    exact Or.inr rfl
  | _ =>
    simp only [Sock.peer] at h
    split_ifs at h <;> simp only [Option.some.injEq] at h <;> subst h <;> exact hs

/-- A peer that neither closes nor resets the connection keeps it open. -/
theorem Live.peer {s t : Sock} {e : Peer} (hs : s.Live) (hfin : e ≠ .fin) (hreset : e ≠ .reset)
    (h : s.peer e = some t) : t.Live := by
  cases e with
  | deliver bs =>
    simp only [Sock.peer] at h
    split_ifs at h <;> simp only [Option.some.injEq] at h <;> subst h <;>
      exact ⟨hs.fin, hs.rst, hs.err⟩
  | fin => exact absurd rfl hfin
  | reset => exact absurd rfl hreset
  | drain k =>
    simp only [Sock.peer, Option.some.injEq] at h
    subst h
    exact ⟨hs.fin, hs.rst, hs.err⟩

/-- A connection on which nothing has happened yet but arrivals. -/
structure Fresh (s : Sock) : Prop extends s.Live where
  issued : s.issued = []
  shut : s.shut = false

theorem Fresh.sent {s : Sock} (h : s.Fresh) : s.sent = [] := by
  rw [Sock.sent, h.issued, List.flatMap_nil]

end Sock

/-! ### Pipes -/

/-- A pipe of `cap` bytes whose write end is in `O_NONBLOCK` mode. -/
structure Pipe where
  buf : List Byte := []
  cap : ℕ := 0
  deriving DecidableEq, Repr

namespace Pipe

/-- `write(fd, bs, n)` with `n ≤ PIPE_BUF` on the nonblocking end: all of `bs` enters the pipe,
for which there must be room, or the call fails and nothing does. -/
def write (q : Pipe) (bs : List Byte) : Bool → Option Pipe
  | true => if q.buf.length + bs.length ≤ q.cap then some { q with buf := q.buf ++ bs } else none
  | false => some q

/-- `read(fd, buffer, len)`: `k` bytes if there are any, the end of the stream if there are none
and no process holds the write end; else it blocks. -/
def read (hasWr : Bool) (len k : ℕ) (q : Pipe) : Option (Ret × Pipe) :=
  if q.buf = [] then
    if hasWr then none else some (.eof, q)
  else if 0 < k ∧ k ≤ len ∧ k ≤ q.buf.length then
    some (.bytes (q.buf.take k), { q with buf := q.buf.drop k })
  else none

theorem write_true {q q' : Pipe} {bs : List Byte} (h : q.write bs true = some q') :
    q'.buf = q.buf ++ bs := by
  simp only [write] at h
  split_ifs at h
  simp only [Option.some.injEq] at h
  rw [← h]

@[simp] theorem write_false (q : Pipe) (bs : List Byte) : q.write bs false = some q := rfl

/-- While some process holds the write end, a read that returns returns data. -/
theorem read_bytes {q q' : Pipe} {len k : ℕ} {r : Ret} (h : q.read true len k = some (r, q')) :
    ∃ bs, r = .bytes bs ∧ bs ≠ [] ∧ q.buf = bs ++ q'.buf := by
  simp only [read, if_true] at h
  split_ifs at h with hq hk
  simp only [Option.some.injEq, Prod.mk.injEq] at h
  obtain ⟨rfl, rfl⟩ := h
  refine ⟨_, rfl, fun hnil => ?_, by simp⟩
  have hlen := congrArg List.length hnil
  simp only [List.length_take, List.length_nil] at hlen
  omega

end Pipe

end Parikshan.Posix
