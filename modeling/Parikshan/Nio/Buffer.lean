import Mathlib.Data.List.Basic
import Mathlib.Order.Nat
import Mathlib.Tactic.Common

/-!
# Buffers with a position and a limit

The buffers of `java.nio`: an array with a position and a limit, `position ≤ limit ≤ capacity`. Data
are put at the position and taken from it, and either call advances it. A buffer has no mode: it is
up to the program whether what lies before the position has been put there and is to be taken, after
`flip`, or what lies behind it has yet to be taken.

## Main definitions

* `Buffer`: an array with a position and a limit.
* `Buffer.put`, `Buffer.get`, `Buffer.flip`, `Buffer.clear`.
* `Buffer.filled`, `Buffer.window`: what lies before the position, and up to the limit behind it.

## Main results

* `Buffer.window_flip_put`: what is put into a buffer can be taken from it after `flip`.
* `Buffer.window_get`: what has not been taken yet stays.
-/

namespace Parikshan.Nio

/-- An array with a position and a limit. -/
structure Buffer (α : Type*) where
  data : List α
  position : ℕ
  limit : ℕ
  position_le : position ≤ limit
  limit_le : limit ≤ data.length

namespace Buffer

variable {α : Type*}

/-- `capacity()`. -/
def capacity (b : Buffer α) : ℕ := b.data.length

/-- `remaining()`. -/
def remaining (b : Buffer α) : ℕ := b.limit - b.position

/-- `allocate(n)`. -/
def allocate (n : ℕ) (a : α) : Buffer α where
  data := List.replicate n a
  position := 0
  limit := n
  position_le := Nat.zero_le n
  limit_le := List.length_replicate.ge

/-- `flip()`. -/
def flip (b : Buffer α) : Buffer α :=
  { b with
    position := 0
    limit := b.position
    position_le := Nat.zero_le _
    limit_le := b.position_le.trans b.limit_le }

/-- `clear()`. -/
def clear (b : Buffer α) : Buffer α :=
  { b with
    position := 0
    limit := b.data.length
    position_le := Nat.zero_le _
    limit_le := le_rfl }

theorem length_put (b : Buffer α) (as : List α) (h : as.length ≤ b.remaining) :
    (b.data.take b.position ++ as ++ b.data.drop (b.position + as.length)).length =
      b.data.length := by
  have hposition := b.position_le
  have hlimit := b.limit_le
  unfold remaining at h
  simp only [List.length_append, List.length_take, List.length_drop]
  omega

/-- Some data are put at the position; they fit. -/
def put (b : Buffer α) (as : List α) (h : as.length ≤ b.remaining) : Buffer α where
  data := b.data.take b.position ++ as ++ b.data.drop (b.position + as.length)
  position := b.position + as.length
  limit := b.limit
  position_le := by
    have hposition := b.position_le
    unfold remaining at h
    omega
  limit_le := by
    rw [length_put b as h]
    exact b.limit_le

/-- `k` data are taken from the position; there are as many. -/
def get (b : Buffer α) (k : ℕ) (h : k ≤ b.remaining) : Buffer α :=
  { b with
    position := b.position + k
    position_le := by
      have hposition := b.position_le
      unfold remaining at h
      omega }

/-- What lies before the position. -/
def filled (b : Buffer α) : List α := b.data.take b.position

/-- What lies behind the position, up to the limit. -/
def window (b : Buffer α) : List α := (b.data.take b.limit).drop b.position

section Lemmas

variable (b : Buffer α) {as : List α} {k : ℕ}

@[simp] theorem length_window : b.window.length = b.remaining := by
  have hlimit := b.limit_le
  simp only [window, remaining, List.length_drop, List.length_take]
  omega

@[simp] theorem capacity_allocate (n : ℕ) (a : α) : (allocate n a).capacity = n :=
  List.length_replicate

@[simp] theorem capacity_flip : b.flip.capacity = b.capacity := rfl

@[simp] theorem capacity_clear : b.clear.capacity = b.capacity := rfl

@[simp] theorem capacity_put (h : as.length ≤ b.remaining) :
    (b.put as h).capacity = b.capacity := length_put b as h

@[simp] theorem capacity_get (h : k ≤ b.remaining) : (b.get k h).capacity = b.capacity := rfl

@[simp] theorem remaining_clear : b.clear.remaining = b.capacity := Nat.sub_zero _

@[simp] theorem remaining_allocate (n : ℕ) (a : α) : (allocate n a).remaining = n := Nat.sub_zero _

theorem remaining_le : b.remaining ≤ b.capacity := (Nat.sub_le _ _).trans b.limit_le

@[simp] theorem filled_clear : b.clear.filled = [] := List.take_zero

@[simp] theorem filled_allocate (n : ℕ) (a : α) : (allocate n a).filled = [] := List.take_zero

/-- What is put into a buffer comes behind what has been. -/
theorem filled_put (h : as.length ≤ b.remaining) : (b.put as h).filled = b.filled ++ as := by
  have hposition := b.position_le
  have hlimit := b.limit_le
  have hlen : (b.data.take b.position ++ as).length = b.position + as.length := by
    rw [List.length_append, List.length_take]
    omega
  change (b.data.take b.position ++ as ++ _).take (b.position + as.length) = _
  rw [← hlen, List.take_left, filled]

/-- After `flip` what has been put into a buffer can be taken from it. -/
theorem window_flip : b.flip.window = b.filled := by
  rw [window, flip, List.drop_zero, filled]

theorem window_flip_put (h : as.length ≤ b.remaining) :
    (b.put as h).flip.window = b.filled ++ as := by
  rw [window_flip, filled_put]

/-- What is left after some data have been taken. -/
theorem window_get (h : k ≤ b.remaining) : (b.get k h).window = b.window.drop k := by
  rw [window, get, window, List.drop_drop]

end Lemmas

end Buffer

end Parikshan.Nio
