import Parikshan.Nio.Buffer
import Parikshan.Nio.Channel

/-!
# The buffer of a connector

A `TcpProxyBuffer` is a `ByteBuffer` with the mode that the byte buffer lacks: it is ready to be
written to, and then empty, or ready to be read from, and then it holds the bytes of one read that
have not been written on. Neither method checks the mode; in the wrong one, `writeFrom` would offer
the bytes that it holds once more, or write over them.

## Main definitions

* `TcpProxyBuffer`, `TcpProxyBuffer.writeFrom`, `TcpProxyBuffer.writeTo`.
* `TcpProxyBuffer.held`: the bytes that a buffer holds.
* `TcpProxyBuffer.WellFormed`: what the mode says about the byte buffer.

## Main results

* `TcpProxyBuffer.writeFrom_cases`, `TcpProxyBuffer.writeTo_cases`: what the methods do in the mode
  that is meant for them.
-/

namespace Parikshan.NioProxy

open Posix

/-- `BufferState`. -/
inductive BufferState
  | readyToWrite
  | readyToRead
  deriving DecidableEq, Repr

/-- `BUFFER_SIZE`. -/
def bufferSize : ℕ := 1000

/-- The exceptions that the methods throw; a `ClosedChannelException` is an `IOException`, and the
callers tell them apart. A `ClosedByInterruptException`, which is a `ClosedChannelException` too, is
thrown in a thread that has been interrupted. -/
inductive Exc
  | closedChannel
  | closedByInterrupt
  | io
  deriving DecidableEq, Repr

/-- `TcpProxyBuffer`. -/
structure TcpProxyBuffer where
  buffer : Nio.Buffer Byte
  state : BufferState

namespace TcpProxyBuffer

/-- A new buffer. -/
def new : TcpProxyBuffer where
  buffer := .allocate bufferSize 0
  state := .readyToWrite

variable (b : TcpProxyBuffer)

/-- `isReadyToRead()`. -/
def isReadyToRead : Bool := b.state = .readyToRead

/-- `isReadyToWrite()`. -/
def isReadyToWrite : Bool := b.state = .readyToWrite

/-- What follows the read in `writeFrom`, lines 49–52. -/
def received (bs : List Byte) (h : bs.length ≤ b.buffer.remaining) : TcpProxyBuffer :=
  if 0 < bs.length then { buffer := (b.buffer.put bs h).flip, state := .readyToRead }
  else { b with buffer := b.buffer.put bs h }

/-- `writeFrom(channel)`, lines 45–53, with what becomes of the channel. -/
def writeFrom (k : ℕ) (x : Sock) : Option (Except Exc TcpProxyBuffer × Sock) :=
  match h : Nio.read b.buffer.remaining k x with
  | none => none
  | some (.bytes bs, y) => some (.ok (b.received bs (Nio.length_read h)), y)
  | some (.eof, y) => some (.error .closedChannel, y)
  | some (.error, y) => some (.error .io, y)

/-- What follows the write of `n` bytes in `writeTo`, lines 66–70. -/
def sent (n : ℕ) (h : n ≤ b.buffer.remaining) : TcpProxyBuffer :=
  if (b.buffer.get n h).remaining = 0 then
    { buffer := (b.buffer.get n h).clear, state := .readyToWrite }
  else { b with buffer := b.buffer.get n h }

/-- `writeTo(channel)`, lines 63–71, with what becomes of the channel. -/
def writeTo (k : ℕ) (x : Sock) : Option (Except Exc TcpProxyBuffer × Sock) :=
  match Nio.write k b.buffer.window x with
  | none => none
  | some (none, y) => some (.error .io, y)
  | some (some n, y) =>
    if h : n ≤ b.buffer.remaining then some (.ok (b.sent n h), y) else none

/-- The bytes that a buffer holds. -/
def held : List Byte :=
  match b.state with
  | .readyToWrite => b.buffer.filled
  | .readyToRead => b.buffer.window

/-- What the mode says: a buffer that is ready to be written to is clear, and one that is ready to
be read from holds something. -/
structure WellFormed (b : TcpProxyBuffer) : Prop where
  capacity : b.buffer.capacity = bufferSize
  write : b.state = .readyToWrite → b.buffer.filled = [] ∧ b.buffer.remaining = bufferSize
  read : b.state = .readyToRead → b.buffer.window ≠ []

section Lemmas

variable {b : TcpProxyBuffer} {k : ℕ} {x y : Sock} {r : Except Exc TcpProxyBuffer}

theorem isReadyToWrite_iff : b.isReadyToWrite = true ↔ b.state = .readyToWrite :=
  decide_eq_true_iff

theorem isReadyToRead_iff : b.isReadyToRead = true ↔ b.state = .readyToRead :=
  decide_eq_true_iff

theorem isReadyToWrite_eq_not (b : TcpProxyBuffer) : b.isReadyToWrite = !b.isReadyToRead := by
  cases h : b.state <;> simp [isReadyToWrite, isReadyToRead, h]

theorem WellFormed.new : WellFormed new where
  capacity := Nio.Buffer.capacity_allocate _ _
  write _ := ⟨Nio.Buffer.filled_allocate _ _, Nio.Buffer.remaining_allocate _ _⟩
  read h := by cases h

/-- A well-formed buffer holds something if and only if it is ready to be read from. -/
theorem WellFormed.held_eq_nil (h : b.WellFormed) : b.held = [] ↔ b.state = .readyToWrite := by
  unfold held
  cases hs : b.state with
  | readyToWrite => simp [(h.write hs).1]
  | readyToRead => simp [h.read hs]

theorem WellFormed.held_ne_nil (h : b.WellFormed) : b.held ≠ [] ↔ b.state = .readyToRead := by
  rw [Ne, h.held_eq_nil]
  cases b.state <;> simp

theorem WellFormed.length_held (h : b.WellFormed) : b.held.length ≤ bufferSize := by
  unfold held
  cases hs : b.state with
  | readyToWrite => simp [(h.write hs).1]
  | readyToRead =>
    rw [Nio.Buffer.length_window, ← h.capacity]
    exact b.buffer.remaining_le

/-- What has been put into a clear buffer is held. -/
theorem WellFormed.received (h : b.WellFormed) (hs : b.state = .readyToWrite) {bs : List Byte}
    (hbs : bs.length ≤ b.buffer.remaining) :
    (b.received bs hbs).WellFormed ∧ (b.received bs hbs).held = bs := by
  obtain ⟨hfilled, hremaining⟩ := h.write hs
  by_cases hpos : 0 < bs.length
  · have hwindow : (b.buffer.put bs hbs).flip.window = bs := by
      rw [Nio.Buffer.window_flip_put, hfilled, List.nil_append]
    rw [TcpProxyBuffer.received, if_pos hpos]
    refine ⟨⟨?_, fun h => absurd h (by simp), fun _ => ?_⟩, hwindow⟩
    · rw [Nio.Buffer.capacity_flip, Nio.Buffer.capacity_put, h.capacity]
    · rw [hwindow]
      exact List.length_pos_iff.mp hpos
  · obtain rfl : bs = [] := List.length_eq_zero_iff.mp (Nat.eq_zero_of_not_pos hpos)
    have hput : (b.buffer.put [] hbs).filled = [] := by
      rw [Nio.Buffer.filled_put, hfilled, List.append_nil]
    rw [TcpProxyBuffer.received, if_neg hpos]
    refine ⟨⟨?_, fun _ => ⟨hput, hremaining⟩, fun hr => ?_⟩, ?_⟩
    · rw [Nio.Buffer.capacity_put, h.capacity]
    · cases hs.symm.trans hr
    · rw [held, hs]
      exact hput

/-- **`writeFrom` on a buffer that is ready to be written to.** The buffer holds what has been read
from the channel; the exceptions report how the connection has ended. -/
theorem writeFrom_cases (hb : b.WellFormed) (hs : b.state = .readyToWrite)
    (h : b.writeFrom k x = some (r, y)) :
    (∃ b', r = .ok b' ∧ b'.WellFormed ∧ x.inq = b'.held ++ y.inq ∧ y = { x with inq := y.inq } ∧
        (Nio.Readable x → b'.held ≠ [])) ∨
      (∃ e, r = .error e ∧ x.inq = [] ∧ Nio.Readable x ∧ y = { x with err := y.err } ∧
        (e = .closedChannel → x.fin = true ∨ x.err = false ∧ (x.rst = true ∨ x.shut = true))) := by
  unfold writeFrom at h
  split at h
  · cases h
  · next bs z hread =>
    obtain ⟨rfl, rfl⟩ := Prod.mk.inj (Option.some.inj h)
    obtain ⟨hwf, hheld⟩ := hb.received hs (Nio.length_read hread)
    have hpos : 0 < b.buffer.remaining := by
      rw [(hb.write hs).2]
      decide
    refine Or.inl ⟨_, rfl, hwf, ?_⟩
    rw [hheld]
    obtain ⟨bs', hr, -, hinq, heq⟩ | ⟨hr, -⟩ := Nio.read_cases hread
    · obtain rfl := Ret.bytes.inj hr
      exact ⟨hinq, heq, fun hx => Nio.read_ne_nil hx hpos hread⟩
    · exact absurd rfl (hr bs)
  · next z hread =>
    obtain ⟨rfl, rfl⟩ := Prod.mk.inj (Option.some.inj h)
    obtain ⟨bs', hr, -⟩ | ⟨-, hinq, hx, heq⟩ := Nio.read_cases hread
    · cases hr
    · exact Or.inr ⟨_, rfl, hinq, hx, heq, fun _ => Nio.read_eof hread⟩
  · next z hread =>
    obtain ⟨rfl, rfl⟩ := Prod.mk.inj (Option.some.inj h)
    obtain ⟨bs', hr, -⟩ | ⟨-, hinq, hx, heq⟩ := Nio.read_cases hread
    · cases hr
    · exact Or.inr ⟨_, rfl, hinq, hx, heq, fun h => by cases h⟩

/-- What has been taken from a buffer is not held any more. -/
theorem WellFormed.sent (h : b.WellFormed) (hs : b.state = .readyToRead) {n : ℕ}
    (hn : n ≤ b.buffer.remaining) :
    (b.sent n hn).WellFormed ∧ (b.sent n hn).held = b.buffer.window.drop n := by
  have hwindow : (b.buffer.get n hn).window = b.buffer.window.drop n := Nio.Buffer.window_get _ hn
  by_cases hzero : (b.buffer.get n hn).remaining = 0
  · rw [TcpProxyBuffer.sent, if_pos hzero]
    refine ⟨⟨?_, fun _ => ⟨Nio.Buffer.filled_clear _, ?_⟩, fun h => absurd h (by simp)⟩, ?_⟩
    · rw [Nio.Buffer.capacity_clear, Nio.Buffer.capacity_get, h.capacity]
    · rw [Nio.Buffer.remaining_clear, Nio.Buffer.capacity_get, h.capacity]
    · rw [← Nio.Buffer.length_window, hwindow] at hzero
      rw [List.length_eq_zero_iff.mp hzero]
      exact Nio.Buffer.filled_clear _
  · rw [TcpProxyBuffer.sent, if_neg hzero]
    refine ⟨⟨h.capacity, fun hw => ?_, fun _ hnil => ?_⟩, ?_⟩
    · cases hs.symm.trans hw
    · rw [← Nio.Buffer.length_window, List.length_eq_zero_iff] at hzero
      exact hzero hnil
    · rw [held, hs]
      exact hwindow

/-- **`writeTo` on a buffer that is ready to be read from.** What has been written to the channel is
what the buffer has held, up to what it still holds. -/
theorem writeTo_cases (hb : b.WellFormed) (hs : b.state = .readyToRead)
    (h : b.writeTo k x = some (r, y)) :
    (∃ b', r = .ok b' ∧ b'.WellFormed ∧ x.sent ++ b.held = y.sent ++ b'.held ∧
        (Nio.Writable x → b'.held.length < b.held.length) ∧
        y = { x with room := y.room, issued := y.issued }) ∨
      r = .error .io ∧ x.Closed ∧ y = { x with err := y.err } := by
  have hheld : b.held = b.buffer.window := by rw [held, hs]
  unfold writeTo at h
  split at h
  · cases h
  · next z hwrite =>
    obtain ⟨rfl, rfl⟩ := Prod.mk.inj (Option.some.inj h)
    obtain ⟨j, hj, -⟩ | ⟨-, hclosed, heq⟩ := Nio.write_cases hwrite
    · cases hj
    · exact Or.inr ⟨rfl, hclosed, heq⟩
  · next n z hwrite =>
    split_ifs at h with hn
    obtain ⟨rfl, rfl⟩ := Prod.mk.inj (Option.some.inj h)
    obtain ⟨hwf, hsent⟩ := hb.sent hs hn
    obtain ⟨j, hj, hlen, hout, -, hprogress, heq⟩ | ⟨hj, -⟩ := Nio.write_cases hwrite
    · obtain rfl := Option.some.inj hj
      refine Or.inl ⟨_, rfl, hwf, ?_, fun hx => ?_, heq⟩
      · rw [hout, hsent, hheld, List.append_assoc, List.take_append_drop]
      · have hpos := hprogress hx (hb.read hs)
        rw [hsent, hheld, List.length_drop]
        omega
    · cases hj

end Lemmas

end TcpProxyBuffer

end Parikshan.NioProxy
