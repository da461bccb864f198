import Parikshan.Duplicator.Model

/-!
# Descriptors inherited through the forks

`handle_client` forks its workers before it closes anything, so every worker starts with all
sockets and with both ends of the pipe. No worker closes an end of the pipe before it ends: while
a worker lives, the pipe has a reader and a writer, and neither a write on it raises `SIGPIPE` nor
a read on it meets the end of the stream.

## Main definitions

* `Inherited`: the invariant of the descriptor tables.

## Main results

* `Inherited.handling`, `Inherited.step`: it holds at the start, and every step keeps it.
* `Inherited.hasRd`, `Inherited.hasWr`: a living worker keeps the pipe open.
-/

namespace Parikshan.Duplicator

open Posix

/-- An operation of `handle_client` that closes a socket. -/
def HandlerOp.IsClose (o : HandlerOp) : Prop := ∃ i, o = .close i

/-- What is left of `handle_client` forks before it closes, and what it has closed is not missing
in a worker. -/
structure Handler.Ready (h : Handler) (worker : Tid → Option (Proc SockId Unit)) : Prop where
  order : h.ops.Pairwise fun a b => a.IsClose → b.IsClose
  nodup : h.ops.Nodup
  socks : (∃ t, HandlerOp.fork t ∈ h.ops) → h.socks = fun _ => true
  rd : h.rd = fun _ => true
  wr : h.wr = fun _ => true
  unborn : ∀ t, HandlerOp.fork t ∈ h.ops → worker t = none

/-- The invariant of the descriptor tables. -/
structure Inherited (s : State) : Prop where
  handler : ∀ h, s.handler = some h → h.Ready s.worker
  worker : ∀ t p, s.worker t = some p → p.HoldsPipes

/-- The process of a worker that has just been forked. -/
def forked (L : Loop SockId Unit) : Proc SockId Unit where
  pc := L.entry
  socks _ := true
  rd _ := true
  wr _ := true

namespace Inherited

variable {asynch : Bool} {s t : State}

theorem handling (asynch : Bool) (w : World SockId Unit) : Inherited (handling asynch w) where
  handler := by
    rintro h ⟨⟩
    refine ⟨?_, by cases asynch <;> decide, fun _ => rfl, rfl, rfl, fun _ _ => rfl⟩
    cases asynch <;> simp [handleClient, HandlerOp.IsClose]
  worker := by
    intro t p hp
    cases hp

/-- The worker forked next starts with everything open. -/
theorem child_eq {h : Handler} {i : Tid} {ops : List HandlerOp} (hs : Inherited s)
    (hh : s.handler = some h) (hops : h.ops = .fork i :: ops) (L : Loop SockId Unit) :
    h.child L = forked L := by
  have hr := hs.handler h hh
  have hsocks := hr.socks ⟨i, hops ▸ List.mem_cons_self⟩
  rw [Handler.child, forked, hsocks, hr.rd, hr.wr]

theorem worker_none {h : Handler} {i : Tid} {ops : List HandlerOp} (hs : Inherited s)
    (hh : s.handler = some h) (hops : h.ops = .fork i :: ops) : s.worker i = none :=
  (hs.handler h hh).unborn i (hops ▸ List.mem_cons_self)

/-- After a close no fork is left. -/
theorem not_fork_mem {h : Handler} {i : SockId} {ops : List HandlerOp} (hs : Inherited s)
    (hh : s.handler = some h) (hops : h.ops = .close i :: ops) (t : Tid) :
    HandlerOp.fork t ∉ ops := by
  intro hmem
  have horder := (hs.handler h hh).order
  rw [hops, List.pairwise_cons] at horder
  obtain ⟨j, hj⟩ := horder.1 _ hmem ⟨i, rfl⟩
  cases hj

theorem step_handler (hs : Inherited s) (h : (duplicator asynch).step s .handler = some t) :
    Inherited t := by
  obtain ⟨H, hH, ⟨-, rfl⟩ | ⟨i, ops, hops, rfl⟩ | ⟨i, ops, hops, rfl⟩⟩ :=
    Duplicator.step_handler h
  · exact ⟨fun _ h => absurd h (by simp), hs.worker⟩
  · have hr := hs.handler H hH
    have hchild := hs.child_eq hH hops (program asynch i)
    have hnodup := hr.nodup
    have horder := hr.order
    rw [hops] at hnodup horder
    refine ⟨?_, ?_⟩
    · rintro _ ⟨⟩
      refine ⟨horder.of_cons, hnodup.of_cons, ?_, hr.rd, hr.wr, ?_⟩
      · exact fun ⟨t, ht⟩ => hr.socks ⟨t, hops ▸ List.mem_cons_of_mem _ ht⟩
      · intro t ht
        have hne : t ≠ i := by
          rintro rfl
          exact (List.nodup_cons.mp hnodup).1 ht
        rw [State.setWorker_worker_of_ne _ hne]
        exact hr.unborn t (hops ▸ List.mem_cons_of_mem _ ht)
    · intro t p hp
      by_cases hti : t = i
      · subst hti
        rw [State.setWorker_worker_self, hchild, Option.some.injEq] at hp
        subst hp
        exact fun _ _ => ⟨fun _ => rfl, fun _ => rfl⟩
      · rw [State.setWorker_worker_of_ne _ hti] at hp
        exact hs.worker t p hp
  · have hr := hs.handler H hH
    have hnodup := hr.nodup
    have horder := hr.order
    rw [hops] at hnodup horder
    refine ⟨?_, hs.worker⟩
    rintro _ ⟨⟩
    refine ⟨horder.of_cons, hnodup.of_cons, ?_, hr.rd, hr.wr, ?_⟩
    · exact fun ⟨t, ht⟩ => absurd ht (hs.not_fork_mem hH hops t)
    · exact fun t ht => absurd ht (hs.not_fork_mem hH hops t)

theorem step_work {i : Tid} {c : Choice} (hs : Inherited s)
    (h : (duplicator asynch).step s (.work i c) = some t) : Inherited t := by
  obtain ⟨p, w', p', hp, hstep, rfl⟩ := Duplicator.step_work h
  have hp' : p'.HoldsPipes := by
    rcases workerStep_cases hstep with ⟨k, -, -, -, rfl⟩ | ⟨-, hL⟩
    · exact fun he => absurd rfl he
    · exact Loop.step_holdsPipes (hs.worker i p hp) hL
  refine ⟨fun H hH => ?_, fun j q hq => ?_⟩
  · have hr := hs.handler H hH
    refine ⟨hr.order, hr.nodup, hr.socks, hr.rd, hr.wr, fun j hj => ?_⟩
    have hne : j ≠ i := by
      rintro rfl
      simp [hr.unborn j hj] at hp
    rw [State.setWorker_worker_of_ne _ hne]
    exact hr.unborn j hj
  · by_cases hji : j = i
    · subst hji
      rw [State.setWorker_worker_self, Option.some.injEq] at hq
      exact hq ▸ hp'
    · rw [State.setWorker_worker_of_ne _ hji] at hq
      exact hs.worker j q hq

theorem step {a : Act} (hs : Inherited s) (h : (duplicator asynch).step s a = some t) :
    Inherited t := by
  cases a with
  | peer i e =>
    obtain ⟨x, -, rfl⟩ := step_peer h
    exact ⟨hs.handler, hs.worker⟩
  | handler => exact hs.step_handler h
  | work i c => exact hs.step_work h

/-- A worker that has not ended keeps the read end of the pipe open. -/
theorem hasRd {i : Tid} {p : Proc SockId Unit} (hs : Inherited s) (hp : s.worker i = some p)
    (he : p.pc ≠ .exited) (hk : p.pc ≠ .killed) (q : Unit) : s.hasRd q = true := by
  have hrd := (hs.worker i p hp he hk).1 q
  cases i <;> simp [State.hasRd, hp, hrd]

/-- A worker that has not ended keeps the write end of the pipe open. -/
theorem hasWr {i : Tid} {p : Proc SockId Unit} (hs : Inherited s) (hp : s.worker i = some p)
    (he : p.pc ≠ .exited) (hk : p.pc ≠ .killed) (q : Unit) : s.hasWr q = true := by
  have hwr := (hs.worker i p hp he hk).2 q
  cases i <;> simp [State.hasWr, hp, hwr]

end Inherited

/-! ### The processes of the workers -/

/-- The process of a worker; one that has not been forked is at the start of its loop. -/
def State.proc (s : State) (t : Tid) : Proc SockId Unit :=
  (s.worker t).getD (forked (program true t))

section Proc

variable {asynch : Bool} {s : State} {t : Tid} {p : Proc SockId Unit} {w : World SockId Unit}

/-- All modes start a worker alike. -/
theorem forked_program (asynch : Bool) (t : Tid) :
    forked (program asynch t) = forked (program true t) := by
  cases t <;> cases asynch <;> rfl

theorem State.proc_of_worker (h : s.worker t = some p) : s.proc t = p := by
  rw [State.proc, h, Option.getD_some]

theorem State.setWorker_proc :
    (State.setWorker { s with world := w } t p).proc = Function.update s.proc t p := by
  funext u
  by_cases hut : u = t
  · subst hut
    rw [Function.update_self, State.proc_of_worker (State.setWorker_worker_self ..)]
  · rw [Function.update_of_ne hut, State.proc, State.setWorker_worker_of_ne _ hut, State.proc]

/-- A step of `handle_client` changes no process, a fork included. -/
theorem Inherited.proc_handler {s' : State} (hs : Inherited s)
    (h : (duplicator asynch).step s .handler = some s') :
    s'.world = s.world ∧ s'.proc = s.proc := by
  obtain ⟨H, hH, ⟨-, rfl⟩ | ⟨i, ops, hops, rfl⟩ | ⟨i, ops, hops, rfl⟩⟩ :=
    Duplicator.step_handler h
  · exact ⟨rfl, rfl⟩
  · refine ⟨rfl, funext fun t => ?_⟩
    by_cases hti : t = i
    · subst hti
      rw [State.proc, State.setWorker_worker_self, hs.child_eq hH hops, State.proc,
        hs.worker_none hH hops, Option.getD_some, Option.getD_none, forked_program]
    · rw [State.proc, State.setWorker_worker_of_ne _ hti, State.proc]
  · exact ⟨rfl, rfl⟩

end Proc

end Parikshan.Duplicator
