import Parikshan.Posix.Unchecked

/-!
# Channels in non-blocking mode

A `SocketChannel` in non-blocking mode is a stream socket on which no call waits: a read on a
connection on which nothing has arrived returns `0`, and a write takes as many bytes as the send
buffer has room for. The end of the stream is reported as `-1`, and a reset as an `IOException`. A
selector reports a channel as ready when a call on it would do more than return `0`.

## Main definitions

* `read`, `write`: the calls on a channel.
* `Readable`, `Writable`: when a selector reports the channel.

## Main results

* `read_cases`, `write_cases`: what the calls do.
-/

namespace Parikshan.Nio

open Posix

/-- `read(buffer)` with room for `len` bytes: `k` bytes if any have arrived, none if none have,
`-1` at the end of the stream, or an `IOException`. -/
def read (len k : ℕ) (x : Sock) : Option (Ret × Sock) :=
  match x.recv len k with
  | some y => some y
  | none => if x.inq = [] ∨ len = 0 then some (.bytes [], x) else none

/-- `write(buffer)` with the bytes `bs` in the buffer: `k` of them are taken, at least one unless
there is no room, or an `IOException` is thrown. -/
def write (k : ℕ) (bs : List Byte) (x : Sock) : Option (Option ℕ × Sock) :=
  if x.shut || x.rst then some (none, { x with err := false })
  else if k ≤ bs.length ∧ k ≤ x.room ∧ (0 < k ∨ bs = [] ∨ x.room = 0) then
    some (some k, { x with room := x.room - k, issued := x.issued ++ [.bytes (bs.take k)] })
  else none

/-- A read would return bytes, the end of the stream or an exception. -/
def Readable (x : Sock) : Prop :=
  x.inq ≠ [] ∨ x.err = true ∨ x.fin = true ∨ x.rst = true ∨ x.shut = true

/-- A write would take bytes or throw an exception. This is the documented meaning; a selector may
report a channel from a larger amount of room on only. -/
def Writable (x : Sock) : Prop := 0 < x.room ∨ x.rst = true ∨ x.shut = true

instance (x : Sock) : Decidable (Readable x) :=
  inferInstanceAs (Decidable (x.inq ≠ [] ∨ x.err = true ∨ x.fin = true ∨ x.rst = true ∨
    x.shut = true))

instance (x : Sock) : Decidable (Writable x) :=
  inferInstanceAs (Decidable (0 < x.room ∨ x.rst = true ∨ x.shut = true))

section Calls

variable {x y : Sock} {len k : ℕ} {r : Ret} {bs : List Byte} {n : Option ℕ}

/-- What a read does: it takes a part of what has arrived, or reports how the connection has
ended. -/
theorem read_cases (h : read len k x = some (r, y)) :
    (∃ bs, r = .bytes bs ∧ bs.length ≤ len ∧ x.inq = bs ++ y.inq ∧ y = { x with inq := y.inq }) ∨
      (∀ bs, r ≠ .bytes bs) ∧ x.inq = [] ∧ Readable x ∧ y = { x with err := y.err } := by
  unfold read at h
  split at h
  · next z hrecv =>
    obtain rfl := Option.some.inj h
    cases r with
    | bytes bs =>
      obtain ⟨-, hlen, hinq, heq⟩ := Sock.recv_bytes hrecv
      exact Or.inl ⟨bs, rfl, hlen, hinq, heq⟩
    | _ =>
      obtain ⟨hinq, hended, heq⟩ := Sock.recv_end (by simp) hrecv
      exact Or.inr ⟨by simp, hinq, Or.inr hended, heq⟩
  · split_ifs at h
    obtain ⟨rfl, rfl⟩ := Prod.mk.inj (Option.some.inj h)
    exact Or.inl ⟨[], rfl, Nat.zero_le _, rfl, rfl⟩

theorem length_read (h : read len k x = some (.bytes bs, y)) : bs.length ≤ len := by
  obtain ⟨bs', hr, hlen, -⟩ | ⟨hr, -⟩ := read_cases h
  · rwa [Ret.bytes.inj hr]
  · exact absurd rfl (hr bs)

/-- The end of the stream is reported when the peer has ended it, or on a connection that has ended
otherwise, with no error pending. -/
theorem read_eof (h : read len k x = some (.eof, y)) :
    x.fin = true ∨ x.err = false ∧ (x.rst = true ∨ x.shut = true) := by
  have hrecv : x.recv len k = some (.eof, y) := by
    unfold read at h
    split at h
    · next z hrecv =>
      obtain rfl := Option.some.inj h
      exact hrecv
    · split_ifs at h
      cases h
  unfold Sock.recv at hrecv
  split_ifs at hrecv with hinq herr hend <;> simp only [Option.some.injEq, Prod.mk.injEq,
    reduceCtorEq, false_and] at hrecv
  by_cases hfin : x.fin = true
  · exact Or.inl hfin
  · simp only [hfin, Bool.not_false, Bool.and_true, Bool.not_eq_true, Bool.false_or,
      Bool.or_eq_true] at herr hend
    exact Or.inr ⟨herr, hend⟩

/-- On a ready channel a read does not return `0`. -/
theorem read_ne_nil (hx : Readable x) (hlen : 0 < len) (h : read len k x = some (.bytes bs, y)) :
    bs ≠ [] := by
  unfold read at h
  split at h
  · next z hrecv =>
    obtain rfl := Option.some.inj h
    exact (Sock.recv_bytes hrecv).1
  · next hnone =>
    split_ifs at h with hcond
    have hinq : x.inq = [] := hcond.resolve_right hlen.ne'
    unfold Sock.recv at hnone
    rw [if_pos hinq] at hnone
    split_ifs at hnone with herr hend
    simp only [Bool.or_eq_true, not_or] at hend
    rcases hx with hx | hx | hx | hx | hx
    · exact absurd hinq hx
    · exact absurd (Bool.and_eq_true_iff.mpr ⟨hx, by simpa using hend.1.1⟩) herr
    · exact absurd hx hend.1.1
    · exact absurd hx hend.1.2
    · exact absurd hx hend.2

/-- What a write does. -/
theorem write_cases (h : write k bs x = some (n, y)) :
    (∃ j, n = some j ∧ j ≤ bs.length ∧ y.sent = x.sent ++ bs.take j ∧ ¬ x.Closed ∧
      (Writable x → bs ≠ [] → 0 < j) ∧ y = { x with room := y.room, issued := y.issued }) ∨
      n = none ∧ x.Closed ∧ y = { x with err := y.err } := by
  by_cases hclosed : (x.shut || x.rst) = true
  · simp only [write, hclosed, if_true, Option.some.injEq, Prod.mk.injEq] at h
    obtain ⟨rfl, rfl⟩ := h
    exact Or.inr ⟨rfl, by simpa [Sock.Closed] using hclosed, rfl⟩
  · have hopen := Bool.eq_false_iff.mpr hclosed
    simp only [write, hopen, Bool.false_eq_true, if_false] at h
    split_ifs at h with hk
    obtain ⟨rfl, rfl⟩ := Prod.mk.inj (Option.some.inj h)
    refine Or.inl ⟨k, rfl, hk.1, Sock.sent_append_bytes x _ _, by simpa [Sock.Closed] using hclosed,
      fun hw hne => ?_, rfl⟩
    simp only [Bool.or_eq_true, not_or] at hclosed
    have hroom : 0 < x.room := hw.resolve_right fun h => h.elim hclosed.2 hclosed.1
    rcases hk.2.2 with hpos | hnil | hzero
    · exact hpos
    · exact absurd hnil hne
    · exact absurd hzero hroom.ne'

end Calls

end Parikshan.Nio
