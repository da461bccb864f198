import Parikshan.Duplicator.Descriptors
import Parikshan.Posix.Dataflow
import Parikshan.Posix.Progress

/-!
# Where a handled client ends

Once the peers have closed their connections, `T1`, `T2` and `T4` come to the end of their loops.
`T3` reads from the pipe, whose write end it has inherited itself and never closes: its read never
returns `0`, so that it waits for good, unless a signal ends it before.

## Main definitions

* `Terminal`: no process takes a step any more.
* `Workers`: the invariant of the workers that `handle_client` forks.
* `State.ReaderEnds`: the read of `T3` returns `0`.

## Main results

* `Workers.of_terminal`: in a terminal state a worker has ended or waits for its source.
* `asynch_reader_stuck`: `T3` never exits.
-/

namespace Parikshan.Duplicator

open Posix

/-- A step of `handle_client` or of a worker. -/
def Act.OfProcess : Act → Prop
  | .peer _ _ => False
  | .handler => True
  | .work _ _ => True

/-- A peer takes what has been sent to it. -/
def Act.Drains (a : Act) : Prop := ∃ i k, a = .peer i (.drain k)

/-- No process takes a step, also not when the peers take what has been sent to them. -/
def Terminal (asynch : Bool) (s : State) : Prop :=
  ∀ as t, (∀ a ∈ as, a.Drains) → (duplicator asynch).run s as = some t →
    ∀ a, a.OfProcess → (duplicator asynch).step t a = none

namespace State

variable (s : State)

/-- A worker is at a program counter. -/
def At (t : Tid) (pc : Pc SockId) : Prop := ∃ p, s.worker t = some p ∧ p.pc = pc

/-- The peers have closed their connections. -/
def PeersClosed : Prop := ∀ i, (s.world.sock i).fin = true ∨ (s.world.sock i).rst = true

/-- The read of `T3` on the pipe can return `0`, and `T3` goes on to shut down the duplicate. -/
def ReaderEnds : Prop :=
  ∃ k t, (duplicator true).step s (.work .t3 (.run k)) = some t ∧
    t.At .t3 (.cleanup (forwardDataPipe .duplicate).cleanup)

/-- The state after each peer has taken a byte. -/
def drained : State :=
  { s with
    world := { s.world with
      sock := fun i => { s.world.sock i with room := (s.world.sock i).room + 1 } } }

end State

theorem run_drained (asynch : Bool) (s : State) :
    (duplicator asynch).run s
      [.peer .client (.drain 1), .peer .remote (.drain 1), .peer .duplicate (.drain 1)] =
        some s.drained := by
  simp only [Machine.run, duplicator, Sock.peer, Option.map_some, Option.bind_some,
    State.drained, World.setSock, Option.some.injEq, State.mk.injEq, World.mk.injEq, and_true]
  funext i
  cases i <;> rfl

/-- `handle_client` never waits. -/
theorem handlerStep_isSome (asynch : Bool) {s : State} {H : Handler} (hH : s.handler = some H) :
    (s.handlerStep asynch).isSome := by
  cases hops : H.ops with
  | nil => simp [State.handlerStep, hH, hops]
  | cons o ops => cases o <;> simp [State.handlerStep, hH, hops]

/-- A worker whose loop has no step takes none. -/
theorem step_work_eq_none {asynch : Bool} {s : State} {t : Tid} {p : Proc SockId Unit} {c : Choice}
    (hp : s.worker t = some p) (hpc : p.pc ≠ .cleanup [])
    (h : (program asynch t).step s.hasRd s.hasWr s.world p c = none) :
    (duplicator asynch).step s (.work t c) = none := by
  simp only [duplicator, hp, Option.bind_some, workerStep_eq hpc, h, Option.map_none]

/-- A worker that has ended takes no step. -/
theorem step_work_of_ended {asynch : Bool} {s : State} {t : Tid}
    (h : s.At t .exited ∨ s.At t .killed) (c : Choice) :
    (duplicator asynch).step s (.work t c) = none := by
  rcases h with ⟨p, hp, hpc⟩ | ⟨p, hp, hpc⟩ <;>
    exact step_work_eq_none hp (by simp [hpc]) (by cases c <;> simp only [Loop.step, hpc])

/-- What the peers take does not concern the processes. -/
theorem run_drains {asynch : Bool} {s t : State} {as : List Act} (has : ∀ a ∈ as, a.Drains)
    (h : (duplicator asynch).run s as = some t) :
    t.handler = s.handler ∧ t.worker = s.worker ∧ t.world.pipe = s.world.pipe := by
  induction as generalizing s with
  | nil =>
    obtain rfl := Option.some.inj h
    exact ⟨rfl, rfl, rfl⟩
  | cons a as ih =>
    obtain ⟨u, hu, h⟩ := (Machine.run_cons_eq_some _).mp h
    obtain ⟨i, k, rfl⟩ := has a List.mem_cons_self
    obtain ⟨x, -, rfl⟩ := step_peer hu
    have hrest := ih (fun b hb => has b (List.mem_cons_of_mem _ hb)) h
    exact hrest

/-- After `handle_client` a state is terminal if no worker takes a step, whatever the peers take. -/
theorem terminal_of_stopped {asynch : Bool} {s : State} (hhandler : s.handler = none)
    (hstop : ∀ as u, (duplicator asynch).run s as = some u → u.worker = s.worker →
      u.world.pipe = s.world.pipe → ∀ t c, (duplicator asynch).step u (.work t c) = none) :
    Terminal asynch s := by
  intro as u has hu a ha
  obtain ⟨hh, hw, hp⟩ := run_drains has hu
  cases a with
  | peer i e => exact ha.elim
  | handler =>
    change u.handlerStep asynch = none
    simp [State.handlerStep, hh, hhandler]
  | work t c => exact hstop as u hu hw hp t c

/-! ### The workers -/

/-- The workers of the mode come into being and no others do, and each is at a program counter of
its loop. -/
structure Workers (asynch : Bool) (s : State) : Prop extends Inherited s where
  ops : ∀ h, s.handler = some h → h.ops ⊆ handleClient asynch
  others : ∀ t, HandlerOp.fork t ∉ handleClient asynch → s.worker t = none
  born : ∀ t, HandlerOp.fork t ∈ handleClient asynch → s.worker t = none →
    ∃ h, s.handler = some h ∧ HandlerOp.fork t ∈ h.ops
  fits : ∀ t p, s.worker t = some p → (program asynch t).Fits p.pc

namespace Workers

variable {asynch : Bool} {s t : State} {a : Act}

theorem handling (asynch : Bool) (w : World SockId Unit) :
    Workers asynch (handling asynch w) where
  toInherited := .handling asynch w
  ops := by
    rintro h ⟨⟩
    exact List.Subset.refl _
  others _ _ := rfl
  born t ht _ := ⟨_, rfl, ht⟩
  fits t p hp := by cases hp

theorem entry_fits (asynch : Bool) (t : Tid) :
    (program asynch t).Fits (program asynch t).entry := by
  cases t <;> cases asynch <;>
    exact .of_ne (fun _ _ h => by cases h) fun _ h => by cases h

theorem step_handler (hs : Workers asynch s) (h : (duplicator asynch).step s .handler = some t) :
    Workers asynch t := by
  have hinherited := hs.toInherited.step h
  obtain ⟨H, hH, hcase⟩ := Duplicator.step_handler h
  have hsub := hs.ops H hH
  have hborn {i : Tid} (hi : HandlerOp.fork i ∈ handleClient asynch) (hnone : s.worker i = none) :
      HandlerOp.fork i ∈ H.ops := by
    obtain ⟨H', hH', hmem⟩ := hs.born i hi hnone
    obtain rfl := Option.some.inj (hH.symm.trans hH')
    exact hmem
  obtain ⟨hops, rfl⟩ | ⟨j, ops, hops, rfl⟩ | ⟨j, ops, hops, rfl⟩ := hcase
  · refine ⟨hinherited, fun _ h => (by cases h), hs.others, fun i hi hnone => ?_, hs.fits⟩
    have hmem := hborn hi hnone
    simp [hops] at hmem
  · have hne {i : Tid} (hi : HandlerOp.fork i ∉ handleClient asynch) : i ≠ j := by
      rintro rfl
      exact hi (hsub (hops ▸ List.mem_cons_self))
    refine ⟨hinherited, ?_, fun i hi => ?_, fun i hi hnone => ?_, fun i p hp => ?_⟩
    · rintro _ ⟨⟩ o ho
      exact hsub (hops ▸ List.mem_cons_of_mem _ ho)
    · rw [State.setWorker_worker_of_ne _ (hne hi)]
      exact hs.others i hi
    · have hij : i ≠ j := by
        rintro rfl
        simp at hnone
      rw [State.setWorker_worker_of_ne _ hij] at hnone
      exact ⟨_, rfl, by simpa [hops, hij] using hborn hi hnone⟩
    · by_cases hij : i = j
      · subst hij
        rw [State.setWorker_worker_self, Option.some.injEq] at hp
        exact hp ▸ entry_fits asynch i
      · rw [State.setWorker_worker_of_ne _ hij] at hp
        exact hs.fits i p hp
  · refine ⟨hinherited, ?_, hs.others, fun i hi hnone => ?_, hs.fits⟩
    · rintro _ ⟨⟩ o ho
      exact hsub (hops ▸ List.mem_cons_of_mem _ ho)
    · exact ⟨_, rfl, by simpa [hops] using hborn hi hnone⟩

theorem step_work {j : Tid} {c : Choice} (hs : Workers asynch s)
    (h : (duplicator asynch).step s (.work j c) = some t) : Workers asynch t := by
  have hinherited := hs.toInherited.step h
  obtain ⟨q, w', q', hq, hstep, rfl⟩ := Duplicator.step_work h
  have hne {i : Tid} (hnone : s.worker i = none) : i ≠ j := by
    rintro rfl
    simp [hq] at hnone
  refine ⟨hinherited, hs.ops, fun i hi => ?_, fun i hi hnone => ?_, fun i p hp => ?_⟩
  · rw [State.setWorker_worker_of_ne _ (hne (hs.others i hi))]
    exact hs.others i hi
  · have hij : i ≠ j := by
      rintro rfl
      simp at hnone
    rw [State.setWorker_worker_of_ne _ hij] at hnone
    exact hs.born i hi hnone
  · by_cases hij : i = j
    · subst hij
      rw [State.setWorker_worker_self, Option.some.injEq] at hp
      subst hp
      rcases workerStep_cases hstep with ⟨k, -, -, -, rfl⟩ | ⟨-, hL⟩
      · exact .of_ne (by simp) (by simp)
      · exact Loop.step_fits hL
    · rw [State.setWorker_worker_of_ne _ hij] at hp
      exact hs.fits i p hp

theorem step (hs : Workers asynch s) (h : (duplicator asynch).step s a = some t) :
    Workers asynch t := by
  cases a with
  | peer j e =>
    have hinherited := hs.toInherited.step h
    obtain ⟨x, -, rfl⟩ := step_peer h
    exact ⟨hinherited, hs.ops, hs.others, hs.born, hs.fits⟩
  | handler => exact hs.step_handler h
  | work j c => exact hs.step_work h

theorem run {as : List Act} (hs : Workers asynch s) (h : (duplicator asynch).run s as = some t) :
    Workers asynch t :=
  Machine.invariant_of_step (fun _ _ _ hs h => hs.step h) hs h

/-- **In a terminal state** a worker has ended, or it waits for what it reads. -/
theorem of_terminal (hs : Workers asynch s) (hterminal : Terminal asynch s) {i : Tid}
    (hi : HandlerOp.fork i ∈ handleClient asynch) :
    ∃ p, s.worker i = some p ∧ (p.pc = .exited ∨ p.pc = .killed ∨
      p.pc = .read ∧ ¬ (program asynch i).source.Ready s.hasWr s.world p) := by
  have hhandler : s.handler = none := by
    have hnone : s.handlerStep asynch = none := hterminal [] s (by simp) rfl .handler trivial
    cases hH : s.handler with
    | none => rfl
    | some H =>
      have hsome := handlerStep_isSome asynch hH
      simp [hnone] at hsome
  obtain ⟨p, hp⟩ : ∃ p, s.worker i = some p := by
    rw [← Option.ne_none_iff_exists']
    intro hnone
    obtain ⟨H, hH, -⟩ := hs.born i hi hnone
    simp [hhandler] at hH
  refine ⟨p, hp, ?_⟩
  by_contra hlive
  simp only [not_or, not_and, not_not] at hlive
  obtain ⟨hexited, hkilled, hready⟩ := hlive
  have hstop (c : Choice) : workerStep (program asynch i) s.hasRd s.hasWr s.drained.world p c =
      none := by
    have hnone := hterminal _ _ (by simp [Act.Drains]) (run_drained asynch s) (.work i c) trivial
    have hp' : s.drained.worker i = some p := hp
    simp only [duplicator, hp', Option.bind_some, Option.map_eq_none_iff] at hnone
    exact hnone
  by_cases hreturned : p.pc = .cleanup []
  · have hexit := hstop (.run 0)
    simp [workerStep, hreturned] at hexit
  · have hsize : 0 < (program asynch i).size := by cases i <;> cases asynch <;> decide
    obtain ⟨c, hc⟩ : ∃ c,
        ((program asynch i).step s.hasRd s.hasWr s.drained.world p c).isSome := by
      refine Loop.exists_step hsize (hs.fits i p hp) (fun j => Nat.succ_pos _) hexited hkilled
        hreturned fun hpc => ?_
      have hsource := hready hpc
      cases hsrc : (program asynch i).source <;> rw [hsrc] at hsource <;> exact hsource
    rw [← workerStep_eq hreturned, hstop c] at hc
    cases hc

end Workers

/-! ### The reader of the pipe -/

/-- `T3` is in its loop, or a signal has killed it. -/
def Reading (s : State) : Prop :=
  ∀ p, s.worker .t3 = some p → p.pc.inLoop = true ∨ p.pc = .killed

section Reader

variable {s t : State} {a : Act}

theorem Reading.work {c : Choice} {p p' : Proc SockId Unit} {w' : World SockId Unit}
    (hs : Inherited s) (hr : Reading s) (hp : s.worker .t3 = some p)
    (h : workerStep (program true .t3) s.hasRd s.hasWr s.world p c = some (w', p')) :
    p'.pc.inLoop = true ∨ p'.pc = .killed := by
  rcases hr p hp with hin | hkilled
  · have hexited : p.pc ≠ .exited := fun he => by simp [he, Pc.inLoop] at hin
    have hkilled : p.pc ≠ .killed := fun he => by simp [he, Pc.inLoop] at hin
    rcases workerStep_cases h with ⟨k, -, hpc, -, -⟩ | ⟨-, hL⟩
    · simp [hpc, Pc.inLoop] at hin
    · exact Loop.step_source_pipe rfl rfl hin (hs.worker .t3 p hp)
        (hs.hasWr hp hexited hkilled ()) hL
  · rw [workerStep_eq (by simp [hkilled])] at h
    cases c <;> simp [Loop.step, hkilled] at h

theorem Reading.step (hs : Inherited s) (hr : Reading s)
    (h : (duplicator true).step s a = some t) : Reading t := by
  intro p hp
  cases a with
  | peer i e =>
    obtain ⟨x, -, rfl⟩ := step_peer h
    exact hr p hp
  | handler =>
    obtain ⟨H, hH, ⟨-, rfl⟩ | ⟨i, ops, -, rfl⟩ | ⟨i, ops, -, rfl⟩⟩ := step_handler h
    · exact hr p hp
    · by_cases hi : .t3 = i
      · subst hi
        rw [State.setWorker_worker_self, Option.some.injEq] at hp
        exact Or.inl (hp ▸ rfl)
      · rw [State.setWorker_worker_of_ne _ hi] at hp
        exact hr p hp
    · exact hr p hp
  | work i c =>
    obtain ⟨q, w', q', hq, hstep, rfl⟩ := step_work h
    by_cases hi : .t3 = i
    · subst hi
      rw [State.setWorker_worker_self, Option.some.injEq] at hp
      exact hp ▸ hr.work hs hq hstep
    · rw [State.setWorker_worker_of_ne _ hi] at hp
      exact hr p hp

/-- The invariants of all runs in asynchronous mode. -/
theorem reading_of_run {w : World SockId Unit} {as : List Act}
    (hrun : (duplicator true).run (handling true w) as = some s) :
    Workers true s ∧ Reading s :=
  Machine.invariant_of_step (I := fun s => Workers true s ∧ Reading s)
    (fun _ _ _ hs h => ⟨hs.1.step h, hs.2.step hs.1.toInherited h⟩)
    ⟨.handling true w, fun p hp => by cases hp⟩ hrun

/-- While the pipe is empty `T3` waits at its read. -/
theorem Inherited.waits {p : Proc SockId Unit} (hs : Inherited s) (hp : s.worker .t3 = some p)
    (hpc : p.pc = .read) (hempty : (s.world.pipe ()).buf = []) (c : Choice) :
    (duplicator true).step s (.work .t3 c) = none := by
  have hrd := (hs.worker .t3 p hp (by simp [hpc]) (by simp [hpc])).1 ()
  have hwr := hs.hasWr hp (by simp [hpc]) (by simp [hpc]) ()
  exact step_work_eq_none hp (by simp [hpc])
    (Loop.step_read_eq_none rfl hpc hrd hwr hempty c)

end Reader

/-- **`T3` never comes to the end of its stream.** In every run in asynchronous mode: in no
reachable state can the read of `T3` on the pipe return `0`. When the peers have closed their
connections and no process takes a step any more, `T1`, `T2` and `T4` have ended, and `T3` has not
exited: it waits at its read of the empty pipe, or a signal has killed it. -/
theorem asynch_reader_stuck {w : World SockId Unit} {as : List Act} {s : State}
    (hrun : (duplicator true).run (handling true w) as = some s) :
    ¬ s.ReaderEnds ∧
      (Terminal true s → s.PeersClosed →
        (∀ t, t ≠ .t3 → s.At t .exited ∨ s.At t .killed) ∧ ¬ s.At .t3 .exited ∧
          (s.At .t3 .read ∧ (s.world.pipe ()).buf = [] ∨ s.At .t3 .killed)) := by
  obtain ⟨hworkers, hreading⟩ := reading_of_run hrun
  refine ⟨?_, fun hterminal hclosed => ?_⟩
  · rintro ⟨k, t, ht, p, hp, hpc⟩
    rcases hreading.step hworkers.toInherited ht p hp with hin | hkilled
    · simp [hpc, Pc.inLoop] at hin
    · simp [hpc] at hkilled
  have hforked (t : Tid) : HandlerOp.fork t ∈ handleClient true := by cases t <;> decide
  refine ⟨fun t ht => ?_, ?_, ?_⟩
  · obtain ⟨p, hp, hexited | hkilled | ⟨-, hwait⟩⟩ := hworkers.of_terminal hterminal (hforked t)
    · exact Or.inl ⟨p, hp, hexited⟩
    · exact Or.inr ⟨p, hp, hkilled⟩
    · have hready (i : SockId) : Source.Ready s.hasWr s.world p (.sock i) := fun _ =>
        (hclosed i).elim (fun h => Or.inr (Or.inr (Or.inl h)))
          fun h => Or.inr (Or.inr (Or.inr (Or.inl h)))
      cases t with
      | t3 => exact absurd rfl ht
      | _ => exact absurd (hready _) hwait
  · rintro ⟨p, hp, hexited⟩
    rcases hreading p hp with hin | hkilled
    · simp [hexited, Pc.inLoop] at hin
    · simp [hexited] at hkilled
  · obtain ⟨p, hp, hexited | hkilled | ⟨hpc, hwait⟩⟩ :=
      hworkers.of_terminal hterminal (hforked .t3)
    · rcases hreading p hp with hin | hkilled
      · simp [hexited, Pc.inLoop] at hin
      · simp [hexited] at hkilled
    · exact Or.inr ⟨p, hp, hkilled⟩
    · refine Or.inl ⟨⟨p, hp, hpc⟩, ?_⟩
      by_contra hbuf
      exact hwait fun _ => Or.inl hbuf

/-- A state in which `T3` reads the empty pipe and the other workers have exited is terminal. -/
theorem terminal_of_reading {w : World SockId Unit} {as : List Act} {s : State}
    (hrun : (duplicator true).run (handling true w) as = some s) (hhandler : s.handler = none)
    (h₁ : s.At .t1 .exited) (h₂ : s.At .t2 .exited) (h₃ : s.At .t3 .read) (h₄ : s.At .t4 .exited)
    (hbuf : (s.world.pipe ()).buf = []) : Terminal true s := by
  refine terminal_of_stopped hhandler fun as u hu hw hp t c => ?_
  have hended (i : Tid) (hi : s.At i .exited) : u.At i .exited ∨ u.At i .killed := by
    obtain ⟨p, hp, hpc⟩ := hi
    exact Or.inl ⟨p, hw ▸ hp, hpc⟩
  cases t with
  | t1 => exact step_work_of_ended (hended _ h₁) c
  | t2 => exact step_work_of_ended (hended _ h₂) c
  | t4 => exact step_work_of_ended (hended _ h₄) c
  | t3 =>
    obtain ⟨p, hp₃, hpc⟩ := h₃
    have hinherited := ((reading_of_run hrun).1.run hu).toInherited
    exact hinherited.waits (hw ▸ hp₃) hpc (by rw [hp, hbuf]) c

/-- The client, production and the duplicate close without having sent anything, and the workers
take all the steps they can. -/
def allClose : List Act :=
  List.replicate 8 .handler ++
    [.peer .client .fin, .peer .remote .fin, .peer .duplicate .fin, .work .t3 (.run 0)] ++
    List.replicate 6 (.work .t1 (.run 0)) ++ List.replicate 6 (.work .t2 (.run 0)) ++
    List.replicate 4 (.work .t4 (.run 0))

/-- In this run `T3` is left at its read, and no process takes a step any more. -/
theorem allClose_stuck : ∃ s, (duplicator true).run (handling true ⟨fun _ => {}, fun _ => {}⟩)
    allClose = some s ∧ Terminal true s ∧ s.PeersClosed ∧ (s.world.pipe ()).buf = [] ∧
      s.At .t1 .exited ∧ s.At .t2 .exited ∧ s.At .t3 .read := by
  have hfacts : ((duplicator true).run (handling true ⟨fun _ => {}, fun _ => {}⟩) allClose).map
      (fun s => (s.handler.isNone, [Tid.t1, .t2, .t3, .t4].map fun t => (s.worker t).map Proc.pc,
        [SockId.client, .remote, .duplicate].map fun i => (s.world.sock i).fin,
        (s.world.pipe ()).buf)) =
      some (true, [some .exited, some .exited, some .read, some .exited], [true, true, true],
        []) := by decide
  obtain ⟨s, hrun, hs⟩ := Option.map_eq_some_iff.mp hfacts
  simp only [Prod.mk.injEq, List.map_cons, List.map_nil, List.cons.injEq, and_true,
    Option.isNone_iff_eq_none, Option.map_eq_some_iff] at hs
  obtain ⟨hhandler, ⟨h₁, h₂, h₃, h₄⟩, hfin, hbuf⟩ := hs
  refine ⟨s, hrun, terminal_of_reading hrun hhandler h₁ h₂ h₃ h₄ hbuf, fun i => Or.inl ?_, hbuf, h₁,
    h₂, h₃⟩
  cases i <;> simp [hfin]

theorem asynch_reader_stuck_allClose : ∃ s,
    (duplicator true).run (handling true ⟨fun _ => {}, fun _ => {}⟩) allClose = some s ∧
      ¬ s.ReaderEnds ∧ ¬ s.At .t3 .exited := by
  obtain ⟨s, hrun, hterminal, hclosed, -⟩ := allClose_stuck
  obtain ⟨hreader, hstuck⟩ := asynch_reader_stuck hrun
  exact ⟨s, hrun, hreader, (hstuck hterminal hclosed).2.1⟩

theorem asynch_ends_fails : ¬ ∀ (w : World SockId Unit) (as : List Act) (s : State),
    (duplicator true).run (handling true w) as = some s →
    (s.PeersClosed → s.At .t1 .exited → s.At .t2 .exited → (s.world.pipe ()).buf = [] →
      s.ReaderEnds) ∧
    (Terminal true s → s.PeersClosed → ∀ t, s.At t .exited) := by
  intro hall
  obtain ⟨s, hrun, -, hclosed, hbuf, h₁, h₂, p, hp, hpc⟩ := allClose_stuck
  obtain ⟨hreads, -⟩ := hall _ _ s hrun
  obtain ⟨k, t, ht, -⟩ := hreads hclosed h₁ h₂ hbuf
  have hwaits := (reading_of_run hrun).1.toInherited.waits hp hpc hbuf (.run k)
  rw [ht] at hwaits
  cases hwaits

end Parikshan.Duplicator
