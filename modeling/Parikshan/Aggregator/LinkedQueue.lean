import Parikshan.Machine.Basic
import Parikshan.Pointers.Chain
import Mathlib.Algebra.Order.Ring.Int
import Mathlib.Data.List.Nodup

/-!
# The linked queue of the aggregator

`queue.c` keeps a queue of nodes from `front` to `rear`. `insert` links its node behind `rear`;
`delete` and `pop_and_delete` free the first node and go on from its link. They leave `rear` as it
is, so that it points to the freed node once the last one is gone, and the next `insert` writes to
that node and not to `front`. The statement in `insert` that mentions the data stores nothing.

The node of an `insert` is taken to be freshly allocated, at any address that is not allocated, a
freed one included, and with any data. An access to a node that is not allocated is a fault, after
which nothing is said.

## Main definitions

* `Queue.insert`, `Queue.delete`, `Queue.popAndDelete`, `Queue.queueSize`: the operations.
* `linkedQueue`: the machine of the operations, beside the list that they stand for.
* `Represents`: the queue is that list.

## Main results

* `linkedQueue_represents_iff`: the sequences of operations over which it is.
* `linkedQueue_fails`: three operations that lead to a fault.
-/

namespace Parikshan.Aggregator.LinkedQueue

open Pointers

variable {α : Type*}

/-- The variables `front` and `rear`, the nodes, and whether a freed node has been accessed. -/
structure Queue (α : Type*) where
  front : Option ℕ
  rear : Option ℕ
  heap : Heap α
  fault : Bool

namespace Queue

variable (s : Queue α)

/-- `insert`, lines 72–87, with a node at the address `temp` whose data is `stale`. -/
def insert (temp : ℕ) (stale : α) : Queue α :=
  let heap := Function.update s.heap temp (some { data := stale, link := none })
  match s.rear with
  | none => { s with front := some temp, rear := some temp, heap := heap }
  | some r =>
    match heap r with
    | none => { s with heap := heap, fault := true }
    | some c =>
      { s with
        rear := some temp
        heap := Function.update heap r (some { c with link := some temp }) }

/-- `pop_and_delete`, lines 89–109, with what it returns. -/
def popAndDelete : Queue α × Bool :=
  match s.front with
  | none => ({ s with front := none, rear := none }, false)
  | some temp =>
    match s.heap temp with
    | none => ({ s with fault := true }, true)
    | some c => ({ s with front := c.link, heap := Function.update s.heap temp none }, true)

/-- `delete`, lines 111–126. -/
def delete : Queue α := s.popAndDelete.1

/-- The loop of `queue_size`: the count when the pointer is null. There is none if the loop has more
than the given number of iterations, follows a freed node or exceeds an `int`. -/
def count (heap : Heap α) : ℕ → Option ℕ → ℤ → Option ℤ
  | _, none, cnt => some cnt
  | 0, some _, _ => none
  | k + 1, some temp, cnt =>
    (heap temp).bind fun c => if cnt + 1 < 2 ^ 31 then count heap k c.link (cnt + 1) else none

/-- `queue_size`, lines 129–143. -/
def queueSize (k : ℕ) : Option ℤ := count s.heap k s.front 0

end Queue

/-- A call. The address and the data of the node that `insert` allocates are in the label. -/
inductive Op (α : Type*)
  | insert (temp : ℕ) (stale data : α)
  | delete
  | popAndDelete
  deriving DecidableEq, Repr

/-- The queue, and the nodes that have been inserted and not removed with the data that was to be
inserted. -/
structure State (α : Type*) where
  queue : Queue α
  list : List (ℕ × α)

/-- The machine of the calls. -/
def linkedQueue : Machine (State α) (Op α) where
  step s
    | .insert temp stale data =>
      if s.queue.heap temp = none then
        some { queue := s.queue.insert temp stale, list := s.list ++ [(temp, data)] }
      else none
    | .delete => some { queue := s.queue.delete, list := s.list.tail }
    | .popAndDelete => some { queue := s.queue.popAndDelete.1, list := s.list.tail }

/-- No node has been allocated. -/
def empty : State α where
  queue := { front := none, rear := none, heap := fun _ => none, fault := false }
  list := []

/-- The queue is the list. -/
structure Represents (s : State α) : Prop where
  fault : s.queue.fault = false
  front : s.queue.front = none ↔ s.list = []
  rear : s.queue.rear = none ↔ s.list = []
  chain : Chain s.queue.heap s.queue.front (s.list.map Prod.fst)
  last : s.queue.rear = (s.list.map Prod.fst).getLast?
  pop : s.queue.popAndDelete.2 = true ↔ s.list ≠ []
  size : ∃ k, s.queue.queueSize k = some s.list.length

/-- The nodes have the data that was to be inserted. -/
def HasData (s : State α) : Prop :=
  ∀ x ∈ s.list, ∃ c, s.queue.heap x.1 = some c ∧ c.data = x.2

/-- The call does not remove the only element, and the elements can be counted in an `int`. -/
def Keeps (s : State α) : Op α → Prop
  | .insert _ _ _ => s.list.length + 1 < 2 ^ 31
  | .delete => s.list.length ≠ 1
  | .popAndDelete => s.list.length ≠ 1

/-- The node of an `insert` has the data already. -/
def Stores (_ : State α) : Op α → Prop
  | .insert _ stale data => stale = data
  | .delete => True
  | .popAndDelete => True

/-! ### Counting -/

section Count

variable {h : Heap α} {p : Option ℕ} {l : List ℕ} {cnt v : ℤ} {k : ℕ}

theorem count_chain (hp : Chain h p l) (hsmall : cnt + l.length < 2 ^ 31) :
    Queue.count h l.length p cnt = some (cnt + l.length) := by
  induction hp generalizing cnt with
  | nil => simp [Queue.count]
  | @cons a c l hc hl ih =>
    rw [List.length_cons, Nat.cast_succ] at hsmall ⊢
    rw [Queue.count, hc, Option.bind_some, if_pos (by omega), ih (by omega)]
    congr 1
    omega

/-- A chain that has been counted is no longer than an `int` can say. -/
theorem lt_of_count (hp : Chain h p l) (hl : l ≠ []) (h : Queue.count h k p cnt = some v) :
    cnt + l.length < 2 ^ 31 := by
  induction hp generalizing cnt k with
  | nil => exact absurd rfl hl
  | @cons a c l hc hl ih =>
    cases k with
    | zero => cases h
    | succ k =>
      rw [Queue.count, hc, Option.bind_some] at h
      split_ifs at h with hlt
      rw [List.length_cons, Nat.cast_succ]
      by_cases hnil : l = []
      · rw [hnil, List.length_nil]
        simpa using hlt
      · have hrest := ih hnil h
        omega

end Count

/-! ### The invariant -/

/-- The invariant of the calls that do not remove the only element. -/
structure Sound (s : State α) : Prop where
  fault : s.queue.fault = false
  chain : Chain s.queue.heap s.queue.front (s.list.map Prod.fst)
  nodup : (s.list.map Prod.fst).Nodup
  last : s.queue.rear = (s.list.map Prod.fst).getLast?
  small : s.list.length < 2 ^ 31

section Sound

variable {s t : State α} {o : Op α} {temp : ℕ} {stale data : α}

theorem Sound.empty : Sound (empty : State α) :=
  ⟨rfl, .nil, List.nodup_nil, rfl, by simp [LinkedQueue.empty]⟩

theorem Sound.represents (hs : Sound s) : Represents s := by
  have hfront : s.queue.front = none ↔ s.list = [] :=
    hs.chain.eq_nil_iff.trans List.map_eq_nil_iff
  refine ⟨hs.fault, hfront, ?_, hs.chain, hs.last, ?_, s.list.length, ?_⟩
  · rw [hs.last, List.getLast?_eq_none_iff, List.map_eq_nil_iff]
  · rw [Ne, ← hfront, Queue.popAndDelete]
    cases s.queue.front with
    | none => simp
    | some a =>
      dsimp only
      cases s.queue.heap a <;> simp
  · have hsmall : (0 : ℤ) + (s.list.map Prod.fst).length < 2 ^ 31 := by
      have hsmall := hs.small
      rw [List.length_map]
      omega
    have hcount := count_chain hs.chain hsmall
    rwa [List.length_map, zero_add] at hcount

theorem Sound.fresh (hs : Sound s) (htemp : s.queue.heap temp = none) :
    temp ∉ s.list.map Prod.fst := by
  intro hmem
  obtain ⟨c, hc⟩ := hs.chain.allocated hmem
  rw [htemp] at hc
  cases hc

/-- What `insert` does: the chain goes on with the new node, and the other nodes keep their data. -/
theorem Sound.insert_cases (hs : Sound s) (htemp : s.queue.heap temp = none) (stale : α) :
    (s.queue.insert temp stale).fault = false ∧
      (s.queue.insert temp stale).rear = some temp ∧
      Chain (s.queue.insert temp stale).heap (s.queue.insert temp stale).front
        (s.list.map Prod.fst ++ [temp]) ∧
      (s.queue.insert temp stale).heap temp = some { data := stale, link := none } ∧
      ∀ a ∈ s.list.map Prod.fst,
        ((s.queue.insert temp stale).heap a).map Cell.data = (s.queue.heap a).map Cell.data := by
  have hfresh := hs.fresh htemp
  have hchain := hs.chain
  have hlast := hs.last
  have hnodup := hs.nodup
  generalize s.list.map Prod.fst = l at hfresh hchain hlast hnodup
  have hnew : Function.update s.queue.heap temp (some { data := stale, link := none }) temp =
      some { data := stale, link := none } := Function.update_self ..
  cases hrear : s.queue.rear with
  | none =>
    rw [hrear] at hlast
    obtain rfl := List.getLast?_eq_none_iff.mp hlast.symm
    simp only [Queue.insert, hrear]
    exact ⟨hs.fault, trivial, .cons hnew .nil, hnew, by simp⟩
  | some r =>
    rw [hrear] at hlast
    obtain ⟨l', rfl⟩ : ∃ l', l = l' ++ [r] := List.getLast?_eq_some_iff.mp hlast.symm
    have hr : r ∈ l' ++ [r] := List.mem_concat_self
    have hne : r ≠ temp := ne_of_mem_of_not_mem hr hfresh
    obtain ⟨c, hc⟩ := hchain.allocated hr
    have hold (a : ℕ) (ha : a ∈ l' ++ [r]) :
        Function.update s.queue.heap temp (some { data := stale, link := none }) a =
          s.queue.heap a :=
      Function.update_of_ne (ne_of_mem_of_not_mem ha hfresh) ..
    simp only [Queue.insert, hrear, hold r hr, hc]
    refine ⟨hs.fault, trivial, (hchain.congr hold).concat hnodup hfresh c hnew rfl,
      (Function.update_of_ne hne.symm ..).trans hnew, fun a ha => ?_⟩
    by_cases har : a = r
    · subst har
      rw [Function.update_self, hc]
      rfl
    · rw [Function.update_of_ne har, hold a ha]

theorem Sound.insert (hs : Sound s) (htemp : s.queue.heap temp = none)
    (hsmall : s.list.length + 1 < 2 ^ 31) :
    Sound { queue := s.queue.insert temp stale, list := s.list ++ [(temp, data)] } := by
  obtain ⟨hfault, hrear, hchain, -, -⟩ := hs.insert_cases htemp stale
  have haddresses : (s.list ++ [(temp, data)]).map Prod.fst = s.list.map Prod.fst ++ [temp] := by
    rw [List.map_append, List.map_singleton]
  refine ⟨hfault, ?_, ?_, ?_, ?_⟩
  · rw [haddresses]
    exact hchain
  · rw [haddresses]
    rw [← List.concat_eq_append]
    exact List.Nodup.concat (hs.fresh htemp) hs.nodup
  · rw [haddresses, List.getLast?_concat]
    exact hrear
  · rwa [List.length_append, List.length_singleton]

/-- What a removal does. -/
theorem Sound.pop (hs : Sound s) (hlength : s.list.length ≠ 1) :
    Sound { queue := s.queue.popAndDelete.1, list := s.list.tail } ∧
      ∀ a ∈ s.list.tail.map Prod.fst, s.queue.popAndDelete.1.heap a = s.queue.heap a := by
  have hfront : s.queue.front = none ↔ s.list = [] :=
    hs.chain.eq_nil_iff.trans List.map_eq_nil_iff
  cases hlist : s.list with
  | nil =>
    rw [List.tail_nil]
    simp only [Queue.popAndDelete, hfront.mpr hlist]
    refine ⟨⟨hs.fault, .nil, List.nodup_nil, rfl, by simp⟩, by simp⟩
  | cons x l =>
    have hl : l ≠ [] := by
      rintro rfl
      rw [hlist] at hlength
      exact hlength rfl
    have hchain := hs.chain
    have hlast := hs.last
    have hnodup := hs.nodup
    have hsmall := hs.small
    rw [hlist] at hchain hlast hnodup hsmall
    rw [List.map_cons] at hchain hlast hnodup
    obtain ⟨hnot, hnodup⟩ := List.nodup_cons.mp hnodup
    -- `front` is the address of the first element, whose link is the rest of the chain
    obtain ⟨c, hf, hc, hrest⟩ : ∃ c, s.queue.front = some x.1 ∧ s.queue.heap x.1 = some c ∧
        Chain s.queue.heap c.link (l.map Prod.fst) := by
      generalize s.queue.front = p at hchain
      cases hchain with
      | cons hc hl => exact ⟨_, rfl, hc, hl⟩
    have hpop : s.queue.popAndDelete.1 =
        { s.queue with front := c.link, heap := Function.update s.queue.heap x.1 none } := by
      simp only [Queue.popAndDelete, hf, hc]
    rw [hpop, List.tail_cons]
    refine ⟨⟨hs.fault, hrest.update hnot none, hnodup, ?_, ?_⟩, fun a ha => ?_⟩
    · rw [hlast, List.getLast?_cons_of_ne_nil (by simpa using hl)]
    · rw [List.length_cons] at hsmall
      exact (Nat.lt_succ_self _).trans hsmall
    · exact Function.update_of_ne (ne_of_mem_of_not_mem ha hnot) ..

/-- A removal of the only element leaves `rear`. -/
theorem Sound.not_represents_pop (hs : Sound s) (hlength : s.list.length = 1) :
    ¬ Represents { queue := s.queue.popAndDelete.1, list := s.list.tail } := by
  intro hr
  obtain ⟨x, hx⟩ := List.length_eq_one_iff.mp hlength
  have hnil : s.list.tail = [] := by rw [hx, List.tail_cons]
  have hlast : s.queue.rear = some x.1 := by
    rw [hs.last, hx]
    rfl
  -- the node of the only element is there, so that the removal frees it
  have hkeep : s.queue.popAndDelete.1.rear = s.queue.rear := by
    have hchain := hs.chain
    rw [hx] at hchain
    generalize hf : s.queue.front = p at hchain
    cases hchain with
    | cons hc _ => simp only [Queue.popAndDelete, hf, hc]
  have hrear : s.queue.popAndDelete.1.rear = none := hr.rear.mpr hnil
  rw [hkeep, hlast] at hrear
  cases hrear

/-- An `insert` that the count of an `int` has no room for. -/
theorem not_represents_insert (hlarge : ¬ s.list.length + 1 < 2 ^ 31) :
    ¬ Represents { queue := s.queue.insert temp stale, list := s.list ++ [(temp, data)] } := by
  intro hr
  obtain ⟨k, hk⟩ := hr.size
  have hlt := lt_of_count hr.chain (by simp) hk
  rw [List.length_map, List.length_append, List.length_singleton] at hlt
  omega

end Sound

/-! ### Runs -/

section Runs

variable {s t : State α} {o : Op α}

theorem Sound.step (hs : Sound s) (hkeeps : Keeps s o) (hstep : linkedQueue.step s o = some t) :
    Sound t := by
  cases o with
  | insert temp stale data =>
    simp only [linkedQueue, Option.ite_none_right_eq_some, Option.some.injEq] at hstep
    obtain ⟨htemp, rfl⟩ := hstep
    exact hs.insert htemp hkeeps
  | delete =>
    obtain rfl := Option.some.inj hstep
    exact (hs.pop hkeeps).1
  | popAndDelete =>
    obtain rfl := Option.some.inj hstep
    exact (hs.pop hkeeps).1

theorem Sound.not_represents_step (hs : Sound s) (hkeeps : ¬ Keeps s o)
    (hstep : linkedQueue.step s o = some t) : ¬ Represents t := by
  cases o with
  | insert temp stale data =>
    simp only [linkedQueue, Option.ite_none_right_eq_some, Option.some.injEq] at hstep
    obtain ⟨-, rfl⟩ := hstep
    exact not_represents_insert hkeeps
  | delete =>
    obtain rfl := Option.some.inj hstep
    exact hs.not_represents_pop (not_not.mp hkeeps)
  | popAndDelete =>
    obtain rfl := Option.some.inj hstep
    exact hs.not_represents_pop (not_not.mp hkeeps)

/-- A removal leaves the data of the elements behind the first one. -/
theorem HasData.pop (hd : HasData s) (hs : Sound s) (hlength : s.list.length ≠ 1) :
    HasData { queue := s.queue.popAndDelete.1, list := s.list.tail } := by
  intro x hx
  obtain ⟨c, hc, hdata⟩ := hd x (List.mem_of_mem_tail hx)
  exact ⟨c, ((hs.pop hlength).2 _ (List.mem_map_of_mem hx)).trans hc, hdata⟩

/-- A step gives the data of the elements exactly if `insert` finds the data in its node. -/
theorem HasData.step_iff (hd : HasData s) (hs : Sound s) (hkeeps : Keeps s o)
    (hstep : linkedQueue.step s o = some t) : HasData t ↔ Stores s o := by
  cases o with
  | insert temp stale data =>
    simp only [linkedQueue, Option.ite_none_right_eq_some, Option.some.injEq] at hstep
    obtain ⟨htemp, rfl⟩ := hstep
    obtain ⟨-, -, -, hnew, hold⟩ := hs.insert_cases htemp stale
    constructor
    · intro hdata
      obtain ⟨c, hc, hcdata⟩ := hdata (temp, data) List.mem_concat_self
      obtain rfl := Option.some.inj (hnew.symm.trans hc)
      exact hcdata
    · rintro rfl x hx
      rcases List.mem_append.mp hx with hx | hx
      · obtain ⟨c, hc, hcdata⟩ := hd x hx
        have hsame := hold x.1 (List.mem_map_of_mem hx)
        rw [hc, Option.map_some, Option.map_eq_some_iff] at hsame
        obtain ⟨c', hc', hsame⟩ := hsame
        exact ⟨c', hc', hsame.trans hcdata⟩
      · obtain rfl := List.mem_singleton.mp hx
        exact ⟨_, hnew, rfl⟩
  | delete =>
    obtain rfl := Option.some.inj hstep
    exact iff_of_true (hd.pop hs hkeeps) trivial
  | popAndDelete =>
    obtain rfl := Option.some.inj hstep
    exact iff_of_true (hd.pop hs hkeeps) trivial

/-- **The linked queue.** From the empty queue, all states of a sequence of calls represent the list
of the nodes inserted and not removed if and only if no call removes the only element and an `int`
can count the elements. The nodes have the data as well if and only if moreover each node that is
inserted has had its data before. -/
theorem linkedQueue_represents_iff (ops : List (Op α)) :
    (linkedQueue.Along Keeps empty ops ↔ linkedQueue.Throughout Represents empty ops) ∧
      (linkedQueue.Along (fun s o => Keeps s o ∧ Stores s o) empty ops ↔
        linkedQueue.Throughout (fun s => Represents s ∧ HasData s) empty ops) := by
  constructor
  · exact Machine.along_iff_throughout (I := Sound)
      (fun _ _ _ hs _ hkeeps hstep => hs.step hkeeps hstep) (fun _ hs => hs.represents)
      (fun _ _ _ hs _ hkeeps hstep => hs.not_represents_step hkeeps hstep) Sound.empty
      (Machine.along_true empty ops)
  · refine Machine.along_iff_throughout (I := fun s => Sound s ∧ HasData s) ?_
      (fun s hs => ⟨hs.1.represents, hs.2⟩) ?_ ⟨Sound.empty, fun _ hx => ?_⟩
      (Machine.along_true empty ops)
    · rintro s o t ⟨hs, hd⟩ - ⟨hkeeps, hstores⟩ hstep
      exact ⟨hs.step hkeeps hstep, (hd.step_iff hs hkeeps hstep).mpr hstores⟩
    · rintro s o t ⟨hs, hd⟩ - hbad hstep ⟨hr, hdata⟩
      by_cases hkeeps : Keeps s o
      · exact hbad ⟨hkeeps, (hd.step_iff hs hkeeps hstep).mp hdata⟩
      · exact hs.not_represents_step hkeeps hstep hr
    · cases hx

/-- A node is inserted, deleted and another one inserted: the last call writes to the freed node,
and `front` stays null with an element in the queue. -/
theorem linkedQueue_fails :
    ∃ ops : List (Op ℕ), ∃ s, linkedQueue.run empty ops = some s ∧ s.queue.fault = true ∧
      s.queue.front = none ∧ s.list = [(1, 7)] ∧
      ¬ linkedQueue.Throughout Represents empty ops := by
  refine ⟨[.insert 0 7 7, .delete, .insert 1 7 7], _, rfl, rfl, rfl, rfl, fun h => ?_⟩
  have hlast := (h.last rfl).fault
  cases hlast

end Runs

end Parikshan.Aggregator.LinkedQueue
