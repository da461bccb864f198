import Parikshan.Duplicator.Descriptors
import Parikshan.Machine.Simulation
import Mathlib.Data.Set.Insert

/-!
# The debug side never reaches production

In asynchronous mode the duplicator does to the client and to production what it does in plain
mode, where there is no pipe and no duplicate: the plain machine simulates the asynchronous one,
with the peers of the client and the production socket and the steps of `T1` and `T2` other than
its writes on the pipe as visible steps. Everything on the debug side is hidden, so two runs that
agree on the visible steps issue the same bytes and shutdowns on both sockets.

The two points at which the debug side could feed back are closed by the descriptor tables and by
the nonblocking write: `T1` itself holds the read end of the pipe, so its writes never raise
`SIGPIPE`, and a write that finds no room fails at once.

## Main definitions

* `productionSide`: the steps that the client, production, `T1` and `T2` take.
* `relaying`: the plain duplicator whose workers have just been forked.

## Main results

* `simulation_plain`: the plain mode simulates the asynchronous mode.
* `asynch_isolation`: isolation of production from the debug side.
-/

namespace Parikshan.Duplicator

open Posix

/-- The sockets of the production side. -/
def productionSocks : Set SockId := {.client, .remote}

/-- The steps of the production side: what the client and production do, and the steps of `T1`
and `T2` with the counts that the kernel chooses in them. The writes of `T1` on the pipe, whose
outcome depends on the debug side, and all steps of the others are left out. -/
def productionSide : Act → Option Act
  | .peer .client e => some (.peer .client e)
  | .peer .remote e => some (.peer .remote e)
  | .peer .duplicate _ => none
  | .handler => none
  | .work .t1 (.run k) => some (.work .t1 (.run k))
  | .work .t1 (.write _) => none
  | .work .t2 c => some (.work .t2 c)
  | .work .t3 _ => none
  | .work .t4 _ => none

/-- The plain duplicator whose workers have just been forked and whose handler has exited. -/
def relaying (w : World SockId Unit) : State where
  world := w
  handler := none
  worker
    | .t1 => some (forked (program false .t1))
    | .t2 => some (forked (program false .t2))
    | .t3 => none
    | .t4 => none

/-- The workers of the production side. -/
def Tid.Production (t : Tid) : Prop := t = .t1 ∨ t = .t2

theorem program_within (t : Tid) (asynch : Bool) (ht : t.Production) :
    (program asynch t).Within productionSocks := by
  rcases ht with rfl | rfl
  · cases asynch <;>
      exact ⟨by rintro i ⟨⟩; simp [productionSocks], by rintro i ⟨⟩; simp [productionSocks],
        by simp [program, forwardData, forwardDataAsynch, Op.target, productionSocks]⟩
  · exact ⟨by rintro i ⟨⟩; simp [productionSocks], by rintro i ⟨⟩; simp [productionSocks],
      by simp [program, forwardData, Op.target, productionSocks]⟩

theorem program_within_duplicate (t : Tid) (ht : ¬ t.Production) :
    (program true t).Within {SockId.duplicate} := by
  cases t with
  | t1 => exact absurd (Or.inl rfl) ht
  | t2 => exact absurd (Or.inr rfl) ht
  | t3 =>
    exact ⟨by rintro i ⟨⟩, by rintro i ⟨⟩; rfl, by simp [program, forwardDataPipe, Op.target]⟩
  | t4 =>
    exact ⟨by rintro i ⟨⟩; rfl, by rintro i ⟨⟩,
      by simp [program, receiveDataAsynch, Op.target]⟩

/-- The plain workers are the asynchronous ones without the pipe. -/
theorem program_untee (t : Tid) (ht : t.Production) : program false t = (program true t).untee := by
  rcases ht with rfl | rfl <;> rfl

theorem program_source (t : Tid) (asynch : Bool) (ht : t.Production) :
    ∃ i, (program asynch t).source = .sock i := by
  rcases ht with rfl | rfl
  · cases asynch <;> exact ⟨_, rfl⟩
  · exact ⟨_, rfl⟩

/-! ### The simulation -/

/-- A state of the asynchronous duplicator and a state of the plain one agree on the production
side. A worker that has not been forked yet counts as one at the start of its loop. -/
structure Agree (s u : State) : Prop where
  inherited : Inherited s
  socks : World.AgreeOn productionSocks s.world u.world
  worker : ∀ t : Tid, t.Production → ∃ p₀, u.worker t = some p₀ ∧
    Proc.Untee productionSocks ((s.worker t).getD (forked (program true t))) p₀ ∧
    ((s.worker t).getD (forked (program true t))).Within productionSocks
  debug : ∀ t p, ¬ t.Production → s.worker t = some p → p.Within {SockId.duplicate}

theorem Agree.handling {w w₀ : World SockId Unit}
    (hw : World.AgreeOn productionSocks w w₀) : Agree (handling true w) (relaying w₀) where
  inherited := .handling true w
  socks := hw
  worker := by
    rintro t (rfl | rfl)
    · exact ⟨_, rfl, ⟨rfl, fun _ _ => rfl⟩, fun ops h => by cases h⟩
    · exact ⟨_, rfl, ⟨rfl, fun _ _ => rfl⟩, fun ops h => by cases h⟩
  debug := by
    intro t p _ hp
    cases hp

/-- A step of a worker of the asynchronous mode, other than a write on the pipe, in plain mode. -/
theorem workerStep_untee (hasRd₀ hasWr₀ : Unit → Bool) {L : Loop SockId Unit}
    {hasRd hasWr : Unit → Bool} {w w' w₀ : World SockId Unit} {p p' p₀ : Proc SockId Unit}
    {i : SockId} {k : ℕ}
    (hsrc : L.source = .sock i) (hL : L.Within productionSocks) (hK : p.Within productionSocks)
    (hw : World.AgreeOn productionSocks w w₀) (hp : Proc.Untee productionSocks p p₀)
    (h : workerStep L hasRd hasWr w p (.run k) = some (w', p')) :
    ∃ w₀' p₀', workerStep L.untee hasRd₀ hasWr₀ w₀ p₀ (.run k) = some (w₀', p₀') ∧
      World.AgreeOn productionSocks w' w₀' ∧ Proc.Untee productionSocks p' p₀' ∧
      p'.Within productionSocks := by
  rcases workerStep_cases h with ⟨_, -, hpc, rfl, rfl⟩ | ⟨hpc, hstep⟩
  · have hpc₀ : p₀.pc = .cleanup [] := by rw [hp.pc, hpc]; rfl
    exact ⟨w₀, Proc.release .exited, by simp [workerStep, hpc₀], hw, .release .exited,
      fun ops h => by cases h⟩
  · obtain ⟨w₀', p₀', hstep₀, hw', hp'⟩ := Loop.untee_step hsrc hL hK hasRd₀ hasWr₀ hw hp hstep
    refine ⟨w₀', p₀', (workerStep_eq ?_).trans hstep₀, hw', hp', (Loop.step_within hL hK hstep).1⟩
    rw [hp.pc]
    intro hnil
    cases hq : p.pc <;> simp [hq, Pc.untee] at hnil hpc
    exact hpc hnil

namespace Agree

variable {s t u : State}

/-- Replacing a worker of the production side by one that still matches. -/
theorem setWorker (w₀' : World SockId Unit) (p₀ : Proc SockId Unit) {i : Tid}
    {p : Proc SockId Unit} {w' : World SockId Unit} {u' : State} (h : Agree s u) (hi : i.Production)
    (hinh : Inherited (State.setWorker { s with world := w' } i p))
    (hu : u' = State.setWorker { u with world := w₀' } i p₀)
    (hw : World.AgreeOn productionSocks w' w₀') (hp : Proc.Untee productionSocks p p₀)
    (hK : p.Within productionSocks) :
    Agree (State.setWorker { s with world := w' } i p) u' := by
  subst hu
  refine ⟨hinh, hw, fun t ht => ?_, fun t q ht hq => ?_⟩
  · by_cases hti : t = i
    · subst hti
      simp only [State.setWorker_worker_self, Option.getD_some]
      exact ⟨p₀, rfl, hp, hK⟩
    · rw [State.setWorker_worker_of_ne _ hti, State.setWorker_worker_of_ne _ hti]
      exact h.worker t ht
  · have hti : t ≠ i := fun hti => ht (hti ▸ hi)
    rw [State.setWorker_worker_of_ne _ hti] at hq
    exact h.debug t q ht hq

/-- A step of `handle_client` is not seen from the production side. -/
theorem handler (h : Agree s u) (hstep : (duplicator true).step s .handler = some t) :
    Agree t u := by
  have hinh := h.inherited.step_handler hstep
  obtain ⟨H, hH, ⟨-, rfl⟩ | ⟨i, ops, hops, rfl⟩ | ⟨i, ops, hops, rfl⟩⟩ := step_handler hstep
  · exact ⟨hinh, h.socks, h.worker, h.debug⟩
  · have hchild := h.inherited.child_eq hH hops (program true i)
    refine ⟨hinh, h.socks, fun t ht => ?_, fun t p ht hp => ?_⟩
    · by_cases hti : t = i
      · subst hti
        have hnone := h.inherited.worker_none hH hops
        simpa only [State.setWorker_worker_self, hchild, hnone, Option.getD_none,
          Option.getD_some] using h.worker t ht
      · rw [State.setWorker_worker_of_ne _ hti]
        exact h.worker t ht
    · by_cases hti : t = i
      · subst hti
        rw [State.setWorker_worker_self, hchild, Option.some.injEq] at hp
        subst hp
        cases t <;> exact fun ops h => by cases h
      · rw [State.setWorker_worker_of_ne _ hti] at hp
        exact h.debug t p ht hp
  · exact ⟨hinh, h.socks, h.worker, h.debug⟩

/-- A step of `T3` or `T4` is not seen from the production side. -/
theorem debugWorker {i : Tid} {c : Choice} (h : Agree s u) (hi : ¬ i.Production)
    (hstep : (duplicator true).step s (.work i c) = some t) : Agree t u := by
  have hinh := h.inherited.step_work hstep
  obtain ⟨p, w', p', hp, hwork, rfl⟩ := step_work hstep
  have hframe : p'.Within {SockId.duplicate} ∧
      ∀ j ∉ ({SockId.duplicate} : Set SockId), w'.sock j = s.world.sock j := by
    rcases workerStep_cases hwork with ⟨_, -, -, rfl, rfl⟩ | ⟨-, hL⟩
    · exact ⟨(fun ops h => by cases h), fun _ _ => rfl⟩
    · exact Loop.step_within (program_within_duplicate i hi) (h.debug i p hi hp) hL
  refine ⟨hinh, fun j hj => ?_, fun t ht => ?_, fun t q ht hq => ?_⟩
  · have hj' : j ∉ ({SockId.duplicate} : Set SockId) := by
      rintro rfl
      simp [productionSocks] at hj
    exact (h.socks j hj).trans (hframe.2 j hj').symm
  · have hti : t ≠ i := fun hti => hi (hti ▸ ht)
    rw [State.setWorker_worker_of_ne _ hti]
    exact h.worker t ht
  · by_cases hti : t = i
    · subst hti
      rw [State.setWorker_worker_self, Option.some.injEq] at hq
      exact hq ▸ hframe.1
    · rw [State.setWorker_worker_of_ne _ hti] at hq
      exact h.debug t q ht hq

/-- A write of `T1` on the pipe is not seen from the production side: `T1` holds the read end, so
the write returns, and nothing but the pipe depends on what it returns. -/
theorem write {ok : Bool} (h : Agree s u)
    (hstep : (duplicator true).step s (.work .t1 (.write ok)) = some t) : Agree t u := by
  have hinh := h.inherited.step_work hstep
  obtain ⟨p, w', p', hp, hwork, rfl⟩ := step_work hstep
  obtain ⟨p₀, hp₀, huntee, hK⟩ := h.worker .t1 (Or.inl rfl)
  rw [hp, Option.getD_some] at huntee
  rcases workerStep_cases hwork with ⟨_, hc, -⟩ | ⟨-, hL⟩
  · cases hc
  · have hpc : ∃ buf, p.pc = .write buf := by
      cases Loop.trans_of_step hL with
      | write hpc => exact ⟨_, hpc⟩
      | writeSigpipe hpc => exact ⟨_, hpc⟩
    obtain ⟨buf, hpc⟩ := hpc
    have hrd (q : Unit) : s.hasRd q = true :=
      h.inherited.hasRd hp (by simp [hpc]) (by simp [hpc]) q
    obtain ⟨hsock, huntee', rfl⟩ := Loop.untee_write (fun q _ => hrd q) huntee hL
    refine h.setWorker u.world p₀ (Or.inl rfl) hinh ?_ ?_ huntee' ?_
    · have hself : Function.update u.worker .t1 (some p₀) = u.worker := by
        rw [← hp₀, Function.update_eq_self]
      simp only [State.setWorker, hself]
    · exact fun j hj => (h.socks j hj).trans (congrFun hsock j).symm
    · exact fun ops h => by cases h

/-- A step of `T1` or `T2` other than a write on the pipe is one of the plain mode. -/
theorem run {i : Tid} {k : ℕ} (h : Agree s u) (hi : i.Production)
    (hstep : (duplicator true).step s (.work i (.run k)) = some t) :
    ∃ v, (duplicator false).step u (.work i (.run k)) = some v ∧ Agree t v := by
  have hinh := h.inherited.step_work hstep
  obtain ⟨p, w', p', hp, hwork, rfl⟩ := step_work hstep
  obtain ⟨p₀, hp₀, huntee, hK⟩ := h.worker i hi
  rw [hp, Option.getD_some] at huntee hK
  obtain ⟨j, hsrc⟩ := program_source i true hi
  obtain ⟨w₀', p₀', hwork₀, hw', hp', hK'⟩ := workerStep_untee u.hasRd u.hasWr hsrc
    (program_within i true hi) hK h.socks huntee hwork
  rw [← program_untee i hi] at hwork₀
  exact ⟨_, step_work_of hp₀ hwork₀, h.setWorker w₀' p₀' hi hinh rfl hw' hp' hK'⟩

/-- What a peer does to a socket of the production side. -/
theorem peer {i : SockId} {e : Sock.Peer} (h : Agree s u) (hi : i ∈ productionSocks)
    (hstep : (duplicator true).step s (.peer i e) = some t) :
    ∃ v, (duplicator false).step u (.peer i e) = some v ∧ Agree t v := by
  have hinh := h.inherited.step hstep
  obtain ⟨x, hx, rfl⟩ := step_peer hstep
  refine ⟨{ u with world := u.world.setSock i x }, ?_, hinh, h.socks.setSock i x, h.worker,
    h.debug⟩
  simp [duplicator, h.socks i hi, hx]

end Agree

/-- **The asynchronous mode refines the plain mode** on the production side. -/
theorem simulation_plain :
    Machine.Simulation (duplicator true) (duplicator false) productionSide Agree where
  hidden := by
    intro s t u a h ha hstep
    match a, ha with
    | .peer .duplicate e, _ =>
      have hinh := h.inherited.step hstep
      obtain ⟨x, -, rfl⟩ := step_peer hstep
      exact ⟨hinh, h.socks.setSock_of_notMem (by simp [productionSocks]) x, h.worker, h.debug⟩
    | .handler, _ => exact h.handler hstep
    | .work .t1 (.write _), _ => exact h.write hstep
    | .work .t3 _, _ => exact h.debugWorker (by simp [Tid.Production]) hstep
    | .work .t4 _, _ => exact h.debugWorker (by simp [Tid.Production]) hstep
  visible := by
    intro s t u a b h ha hstep
    match a, ha with
    | .peer .client e, rfl => exact h.peer (by simp [productionSocks]) hstep
    | .peer .remote e, rfl => exact h.peer (by simp [productionSocks]) hstep
    | .work .t1 (.run k), rfl => exact h.run (Or.inl rfl) hstep
    | .work .t2 (.run k), rfl => exact h.run (Or.inr rfl) hstep
    | .work .t2 (.write ok), rfl =>
      obtain ⟨p, w', p', hp, hwork, rfl⟩ := step_work hstep
      rcases workerStep_cases hwork with ⟨_, hc, -⟩ | ⟨-, hL⟩
      · cases hc
      · cases Loop.trans_of_step hL with
        | write hpc htee => cases htee
        | writeSigpipe hpc htee => cases htee

/-! ### Isolation -/

/-- The state with another pipe and another connection to the duplicate. -/
def State.withDebug (s : State) (pipe : Pipe) (duplicate : Sock) : State :=
  { s with world := { (s.world.setSock .duplicate duplicate) with pipe := fun _ => pipe } }

/-- Neither the pipe nor the connection to the duplicate decides whether `T1` or `T2` can take a
step, and a write of `T1` on the pipe can always be taken and leaves `T1` in its loop. -/
structure Unblocked (s : State) : Prop where
  run : ∀ t : Tid, t.Production → ∀ pipe duplicate k,
    ((duplicator true).step s (.work t (.run k))).isSome =
      ((duplicator true).step (s.withDebug pipe duplicate) (.work t (.run k))).isSome
  write : ∀ p buf pipe duplicate, s.worker .t1 = some p → p.pc = .write buf →
    ∃ s', (duplicator true).step (s.withDebug pipe duplicate) (.work .t1 (.write false)) = some s' ∧
      s'.worker .t1 = some (p.goto .read)

theorem Agree.unblocked {s u : State} (h : Agree s u) : Unblocked s where
  run := by
    intro t ht pipe duplicate k
    have hw : World.AgreeOn productionSocks s.world (s.withDebug pipe duplicate).world := by
      intro i hi
      exact World.setSock_sock_of_ne _ (by rintro rfl; simp [productionSocks] at hi) _
    obtain ⟨i, hsrc⟩ := program_source t true ht
    have hrun (p : Proc SockId Unit) :
        ((program true t).step s.hasRd s.hasWr s.world p (.run k)).isSome =
          ((program true t).step (s.withDebug pipe duplicate).hasRd
            (s.withDebug pipe duplicate).hasWr (s.withDebug pipe duplicate).world p
            (.run k)).isSome :=
      Loop.step_run_isSome hsrc (program_within t true ht) _ _ k hw
    have hworker : (s.withDebug pipe duplicate).worker t = s.worker t := rfl
    cases hp : s.worker t with
    | none => simp [duplicator, hp, hworker]
    | some p =>
      simp only [duplicator, hp, hworker, Option.bind_some, Option.isSome_map]
      by_cases hpc : p.pc = .cleanup []
      · simp [workerStep, hpc]
      · rw [workerStep_eq hpc, workerStep_eq hpc]
        exact hrun p
  write := by
    intro p buf pipe duplicate hp hpc
    have hrd : (s.withDebug pipe duplicate).hasRd () = true :=
      h.inherited.hasRd hp (by simp [hpc]) (by simp [hpc]) ()
    have hwr := (h.inherited.worker .t1 p hp (by simp [hpc]) (by simp [hpc])).2 ()
    have hstep : workerStep (program true .t1) (s.withDebug pipe duplicate).hasRd
        (s.withDebug pipe duplicate).hasWr (s.withDebug pipe duplicate).world p (.write false) =
        some ((s.withDebug pipe duplicate).world.setPipe () pipe, p.goto .read) := by
      have hpipe : (s.withDebug pipe duplicate).world.pipe () = pipe := rfl
      rw [workerStep_eq (by simp [hpc])]
      simp [Loop.step, hpc, program, forwardDataAsynch, hrd, Proc.write, hwr, hpipe]
    exact ⟨_, step_work_of hp hstep, State.setWorker_worker_self ..⟩

/-- **Isolation of production from the debug side.** Take any two runs of the asynchronous mode,
from the point where `handle_client` forks its workers, in which the client and production behave
alike and `T1` and `T2` take their steps in the same order, whatever the pipe, the duplicate and
the other workers do. Then the same bytes and shutdowns have been issued on the production socket
and on the client socket, in the same order, and no step of `T1` or `T2` is disabled by the pipe
or by the connection to the duplicate. -/
theorem asynch_isolation {w₁ w₂ : World SockId Unit} {as₁ as₂ : List Act} {s₁ s₂ : State}
    (hclient : w₁.sock .client = w₂.sock .client) (hremote : w₁.sock .remote = w₂.sock .remote)
    (hrun₁ : (duplicator true).run (handling true w₁) as₁ = some s₁)
    (hrun₂ : (duplicator true).run (handling true w₂) as₂ = some s₂)
    (hsame : as₁.filterMap productionSide = as₂.filterMap productionSide) :
    (s₁.world.sock .remote).issued = (s₂.world.sock .remote).issued ∧
      (s₁.world.sock .client).issued = (s₂.world.sock .client).issued ∧
      Unblocked s₁ ∧ Unblocked s₂ := by
  have hw : World.AgreeOn productionSocks w₂ w₁ := by
    rintro i (rfl | rfl)
    · exact hclient
    · exact hremote
  obtain ⟨v, h₁, h₂⟩ := simulation_plain.two_run (.handling fun _ _ => rfl) (.handling hw) hrun₁
    hrun₂ hsame
  have hsock {i : SockId} (hi : i ∈ productionSocks) : s₁.world.sock i = s₂.world.sock i :=
    (h₁.socks i hi).symm.trans (h₂.socks i hi)
  refine ⟨congrArg Sock.issued (hsock ?_), congrArg Sock.issued (hsock ?_), h₁.unblocked,
    h₂.unblocked⟩
  · simp [productionSocks]
  · simp [productionSocks]

/-- Two bytes of the client have arrived and the duplicate is connected; the pipe has a capacity. -/
def twoBytesArrived (cap : ℕ) : World SockId Unit where
  sock
    | .client => { inq := [1, 2], room := 8 }
    | .remote => { room := 8 }
    | .duplicate => { room := 8 }
  pipe _ := { cap := cap }

/-- `T1` fills a pipe of two bytes and `T3` empties it. -/
def fillAndEmpty : List Act :=
  [.handler, .work .t1 (.run 2), .work .t1 (.run 2), .work .t1 (.write true), .handler, .handler,
    .work .t3 (.run 0), .work .t3 (.run 2), .work .t3 (.run 2), .peer .client .fin,
    .work .t1 (.run 0), .work .t1 (.run 0)]

/-- The pipe has no room and the duplicate resets its connection. -/
def noRoomAndReset : List Act :=
  [.handler, .work .t1 (.run 2), .peer .duplicate .reset, .work .t1 (.run 2),
    .work .t1 (.write false), .peer .client .fin, .work .t1 (.run 0), .work .t1 (.run 0)]

theorem asynch_isolation_two_bytes :
    ∃ s₁ s₂, (duplicator true).run (handling true (twoBytesArrived 2)) fillAndEmpty = some s₁ ∧
      (duplicator true).run (handling true (twoBytesArrived 0)) noRoomAndReset = some s₂ ∧
      (s₁.world.sock .remote).issued = (s₂.world.sock .remote).issued ∧
      (s₁.world.sock .client).issued = (s₂.world.sock .client).issued ∧
      Unblocked s₁ ∧ Unblocked s₂ := by
  obtain ⟨s₁, h₁⟩ := Option.isSome_iff_exists.mp (by decide :
    ((duplicator true).run (handling true (twoBytesArrived 2)) fillAndEmpty).isSome)
  obtain ⟨s₂, h₂⟩ := Option.isSome_iff_exists.mp (by decide :
    ((duplicator true).run (handling true (twoBytesArrived 0)) noRoomAndReset).isSome)
  have hclient : (twoBytesArrived 2).sock .client = (twoBytesArrived 0).sock .client := rfl
  exact ⟨s₁, s₂, h₁, h₂, asynch_isolation hclient rfl h₁ h₂ rfl⟩

end Parikshan.Duplicator
