import Mathlib.Order.Interval.Finset.Nat
import Mathlib.Data.Finset.Prod
import Parikshan.NioProxy.Placement

/-!
# The end of a worker

A worker that has terminated leaves what has been registered with its selector as it is: the
connectors are neither read, nor written, nor closed any more, and an acceptor accepts nothing more,
while their channels stay open. This is so after `shutdown()`, which destroys the handlers that are
left in the queue only, and it is so when a `register` has thrown a `RuntimeException`; each such
exception costs a worker, so that no more than all of them can be thrown. And since the port stays
bound, a server that is started again accepts no connection.

## Main definitions

* `Act.worker`: the worker of a step.
* `Orphaned`: what can still happen to a connector of a worker that has terminated.
* `Stopping`: the invariant of `shutdown()`.

## Main results

* `tcpProxy_orphaned`: what a worker that has terminated leaves.
* `tcpProxy_shutdown`: what `shutdown()` leaves.
* `tcpProxy_restarted`: one worker accepts all connections of a server.
* `tcpProxy_abandoned`: the number of the connections that are abandoned.
-/

namespace Parikshan.NioProxy.Server

open Posix

/-- The worker of a step. -/
def Act.worker : Act → Option Worker
  | .opening w _ | .loop w | .poll w | .register w _ | .select w _ | .accept w _ | .call w _
  | .callInterrupted w | .clear w => some w
  | .start | .shutdown | .next | .interrupt | .peer _ _ _ => none

/-- A worker that has not been started, or has terminated. -/
def Pc.Done (p : Pc) : Prop := p = .unborn ∨ p = .terminated

section Inversion

variable {cfg : TcpServerConfig} {s t : State} {a : Act} {w : Worker} {c g : ℕ}

theorem pc_goto {s' : State} {v : Worker} {p : Pc} (hpc : s'.pc = s.pc) (hv : ¬ (s.pc v).Done)
    (hp : p ≠ .unborn) (w : Worker) :
    (s'.goto v p).pc w = s.pc w ∨
      ¬ (s.pc w).Done ∧ some v = some w ∧ (s'.goto v p).pc w ≠ .unborn := by
  by_cases hw : w = v
  · subst hw
    rw [s'.goto_pc_self]
    exact .inr ⟨hv, rfl, hp⟩
  · rw [s'.goto_pc_of_ne p hw, hpc]
    exact .inl rfl

/-- A worker goes on by its own steps, from its start to its end. -/
theorem pc_of_trans (hs : Placed s) (h : Trans cfg s a t) (w : Worker) :
    t.pc w = s.pc w ∨ (¬ (s.pc w).Done ∧ a.worker = some w ∧ t.pc w ≠ .unborn) ∨
      s.pc w = .unborn ∧ t.pc w = .opening ∧ w.1 = s.gen + 1 ∧ w.2 < cfg.workerCount := by
  cases h with
  | start hmain hworkers =>
    by_cases hw : w.1 = s.gen + 1 ∧ w.2 < cfg.workerCount
    · refine .inr (.inr ⟨hs.worker w (hw.1 ▸ Nat.lt_succ_self _), ?_, hw⟩)
      simp only [State.started, if_pos hw]
    · refine .inl ?_
      simp only [State.started, if_neg hw]
  | @drain x q hmain hqueue => cases x <;> exact .inl rfl
  | opening hpc | loop hpc =>
    exact (pc_goto (by rfl) (by simp [hpc, Pc.Done]) (by split_ifs <;> simp) w).imp_right .inl
  | bindThrows hpc hr =>
    refine (pc_goto (by rfl) (by simp [hpc, Pc.Done]) ?_ w).imp_right .inl
    rcases hr with ⟨-, rfl⟩ | ⟨-, rfl⟩ <;> simp
  | pollNull hpc | poll hpc | bind hpc | connect hpc | connectFails hpc | connectThrows hpc
  | selectThrows hpc | select hpc | accept hpc | acceptInterrupted hpc | acceptNothing hpc
  | call hpc | callInterrupted hpc | clear hpc =>
    exact (pc_goto (by rfl) (by simp [hpc, Pc.Done]) (by simp) w).imp_right .inl
  | _ => exact .inl rfl

/-- A worker that takes a step has been started and has not terminated. -/
theorem not_done_of_trans (h : Trans cfg s a t) (ha : a.worker = some w) : ¬ (s.pc w).Done := by
  cases h with
  | refused hr => rcases hr with rfl | rfl <;> cases ha
  | opening hpc | loop hpc | pollNull hpc | poll hpc | bind hpc | bindThrows hpc | connect hpc
  | connectFails hpc | connectThrows hpc | selectThrows hpc | select hpc | accept hpc
  | acceptInterrupted hpc | acceptNothing hpc | call hpc | callInterrupted hpc | clear hpc =>
    obtain rfl := Option.some.inj ha
    simp [hpc, Pc.Done]
  | _ => cases ha

/-- A handler is registered in a step of the worker. -/
theorem registered_of_trans (h : Trans cfg s a t) {x : Handler}
    (hx : t.status x = .registered w) : s.status x = .registered w ∨ a.worker = some w := by
  have hacceptor {g' : ℕ} {y : Acceptor}
      (hself : y.status = .registered w → a.worker = some w)
      (hx : (s.setAcceptor g' y).status x = .registered w) :
      s.status x = .registered w ∨ a.worker = some w := by
    by_cases hne : x = .acceptor g'
    · subst hne
      rw [State.setAcceptor_status_self] at hx
      exact .inr (hself hx)
    · rw [State.setAcceptor_status_of_ne s y hne] at hx
      exact .inl hx
  have hconnector {c' : ℕ} {y : Connector}
      (hself : y.status = .registered w →
        s.status (.connector c') = .registered w ∨ a.worker = some w)
      (hx : (s.setConnector c' y).status x = .registered w) :
      s.status x = .registered w ∨ a.worker = some w := by
    by_cases hne : x = .connector c'
    · subst hne
      rw [State.setConnector_status_self] at hx
      exact hself hx
    · rw [State.setConnector_status_of_ne s y hne] at hx
      exact .inl hx
  have hkeep {v : Worker} {c' : ℕ} {u u' : NioProxy.State}
      (hc : s.connector c' = .registered v u)
      (hself : (Connector.registered v u').status = .registered w) :
      s.status (.connector c') = .registered w ∨ a.worker = some w := by
    rw [State.status, hc]
    exact .inl hself
  cases h with
  | start hmain hworkers => exact hacceptor (y := .constructed) (fun hself => by cases hself) hx
  | @drain y q hmain hqueue =>
    cases y with
    | acceptor g' => exact hacceptor (y := .destroyed) (fun hself => by cases hself) hx
    | connector c' => exact hconnector (y := .destroyed) (fun hself => by cases hself) hx
  | poll hpc hqueue =>
    rw [State.goto_status, State.setHandlers_status] at hx
    exact .inl hx
  | @bind v g' room hpc hfree =>
    rw [State.goto_status] at hx
    exact hacceptor (y := .registered v true)
      (fun hself => congrArg some (Status.registered.inj hself)) hx
  | bindThrows hpc hr =>
    rw [State.goto_status] at hx
    exact hacceptor (fun hself => by cases hself) hx
  | @connect v c' room y hpc hc =>
    rw [State.goto_status] at hx
    exact hconnector (y := .registered v _)
      (fun hself => .inr (congrArg some (Status.registered.inj hself))) hx
  | connectFails hpc hc | connectThrows hpc hc =>
    rw [State.goto_status] at hx
    exact hconnector (fun hself => by cases hself) hx
  | @accept w' g' r client cs hpc hbound hr =>
    rw [State.goto_status] at hx
    exact hconnector (y := .constructed client) (fun hself => by cases hself) hx
  | @acceptInterrupted v g' cs hpc hbound hinterrupt =>
    rw [State.goto_status] at hx
    exact hacceptor (y := .registered v false)
      (fun hself => congrArg some (Status.registered.inj hself)) hx
  | call hpc hc hcall =>
    rw [State.goto_status] at hx
    exact hconnector (hkeep hc) hx
  | callInterrupted hpc hc hinterrupt hopen =>
    rw [State.goto_status] at hx
    exact hconnector (hkeep hc) hx
  | peerClient hc hpeer => exact hconnector (fun hself => by cases hself) hx
  | peer hc hpeer => exact hconnector (hkeep hc) hx
  | opening hpc | loop hpc | pollNull hpc | selectThrows hpc | select hpc | acceptNothing hpc
  | clear hpc =>
    rw [State.goto_status] at hx
    exact .inl hx
  | _ => exact .inl hx

theorem connector_setConnector_of_ne {c' : ℕ} {x : Connector} (hne : c ≠ c') :
    (s.setConnector c' x).connector c = s.connector c := Function.update_of_ne hne ..

theorem connector_setConnector_self {x : Connector} : (s.setConnector c x).connector c = x :=
  Function.update_self ..

/-- The worker that has an operation of a connector to process is that of its selector. -/
theorem worker_of_calls (hs : Placed s) {v : Worker} {x : Side × Op} {cs : List Call}
    {u : NioProxy.State} (hpc : s.pc v = .process (.connector c x :: cs))
    (hc : s.connector c = .registered w u) : v = w := by
  have hat := hs.calls v (.connector c x) (by rw [hpc]; exact List.mem_cons_self)
  obtain ⟨u', hu'⟩ := Connector.status_eq_registered.mp hat
  exact (Connector.registered.inj (hu'.symm.trans hc)).1

/-- A connector that has been registered is changed by its worker and by its peers. -/
theorem connector_of_trans (hs : Placed s) (h : Trans cfg s a t) {u : NioProxy.State}
    (hc : s.connector c = .registered w u) :
    t.connector c = .registered w u ∨
      (a.worker = some w ∧ ∃ u', t.connector c = .registered w u') ∨
        ∃ i ev y, (u.chan i).peer ev = some y ∧ t.connector c = .registered w (u.acted i ev y) := by
  have hne {c' : ℕ} {client : Option Sock} (hc' : s.connector c' = .constructed client) :
      c ≠ c' := by
    rintro rfl
    cases hc.symm.trans hc'
  cases h with
  | @drain x q hmain hqueue =>
    cases x with
    | acceptor g => exact .inl hc
    | connector c' =>
      have hwait := hs.waiting (h := .connector c') (p := .queue s.gen)
        (by change _ ∈ s.handlers s.gen; rw [hqueue]; exact List.mem_cons_self)
        (by simp) (by simp) (by simp)
      have hcc : c ≠ c' := by
        rintro rfl
        rw [State.status, hc] at hwait
        cases hwait
      exact .inl ((connector_setConnector_of_ne hcc).trans hc)
  | connect hpc hc' => exact .inl ((connector_setConnector_of_ne (hne hc')).trans hc)
  | connectFails hpc hc' => exact .inl ((connector_setConnector_of_ne (hne hc')).trans hc)
  | connectThrows hpc hc' => exact .inl ((connector_setConnector_of_ne (hne hc')).trans hc)
  | accept hpc hbound hr =>
    have hcount : c ≠ s.count := by
      rintro rfl
      have habsent := hs.born (.connector s.count) (lt_irrefl s.count)
      rw [State.At, State.status, hc] at habsent
      cases habsent
    exact .inl ((Function.update_of_ne hcount ..).trans hc)
  | @call w' v k c' x cs u₀ u' hpc hc' hcall =>
    by_cases hcc : c = c'
    · subst hcc
      obtain rfl := worker_of_calls hs hpc hc
      obtain ⟨rfl, -⟩ := Connector.registered.inj (hc.symm.trans hc')
      exact .inr (.inl ⟨rfl, u', connector_setConnector_self⟩)
    · exact .inl ((connector_setConnector_of_ne hcc).trans hc)
  | @callInterrupted w' v c' x cs u₀ hpc hc' hinterrupt hopen =>
    by_cases hcc : c = c'
    · subst hcc
      obtain rfl := worker_of_calls hs hpc hc
      obtain ⟨rfl, -⟩ := Connector.registered.inj (hc.symm.trans hc')
      exact .inr (.inl ⟨rfl, _, connector_setConnector_self⟩)
    · exact .inl ((connector_setConnector_of_ne hcc).trans hc)
  | peerClient hc' hpeer => exact .inl ((connector_setConnector_of_ne (hne hc')).trans hc)
  | @peer c' i ev v u₀ y hc' hpeer =>
    by_cases hcc : c = c'
    · subst hcc
      obtain ⟨rfl, rfl⟩ := Connector.registered.inj (hc.symm.trans hc')
      exact .inr (.inr ⟨i, ev, y, hpeer, connector_setConnector_self⟩)
    · exact .inl ((connector_setConnector_of_ne hcc).trans hc)
  | _ => exact .inl hc

/-- An acceptor that has been registered is changed by an interrupted `accept` only. -/
theorem acceptor_of_trans (hs : Placed s) (h : Trans cfg s a t) {o : Bool}
    (hg : s.acceptor g = .registered w o) :
    t.acceptor g = .registered w o ∨
      a = .accept w .closedByInterrupt ∧ t.acceptor g = .registered w false := by
  have hat : s.At (.acceptor g) (.selector w) := by
    change (s.acceptor g).status = _
    rw [hg]
    rfl
  have hkeep {g' : ℕ} {y : Acceptor} {p : Place} (hp : s.At (.acceptor g') p)
      (hw : p ≠ .selector w) : (s.setAcceptor g' y).acceptor g = .registered w o := by
    have hgg : g ≠ g' := by
      rintro rfl
      exact hw (hs.eq_of_at hp hat)
    exact (Function.update_of_ne hgg ..).trans hg
  cases h with
  | start hmain hworkers =>
    exact .inl (hkeep (p := .absent) (hs.born (.acceptor (s.gen + 1)) (Nat.lt_irrefl _)) (by simp))
  | @drain x q hmain hqueue =>
    cases x with
    | connector c' => exact .inl hg
    | acceptor g' =>
      refine .inl (hkeep (p := .queue s.gen) ?_ (by simp))
      change _ ∈ s.handlers s.gen
      rw [hqueue]
      exact List.mem_cons_self
  | @bind w' g' room hpc hfree => exact .inl (hkeep (p := .worker w') hpc (by simp))
  | @bindThrows w' g' r p hpc hr => exact .inl (hkeep (p := .worker w') hpc (by simp))
  | @acceptInterrupted w' g' cs hpc hbound hinterrupt =>
    have hat' := hs.calls w' (.accept g') (by rw [hpc]; exact List.mem_cons_self)
    by_cases hgg : g = g'
    · subst hgg
      obtain rfl := Place.selector.inj (hs.eq_of_at hat' hat)
      exact .inr ⟨rfl, Function.update_self ..⟩
    · exact .inl ((Function.update_of_ne hgg ..).trans hg)
  | _ => exact .inl hg

/-- What comes into a queue: the acceptor of a generation that is started, and the connectors that
an acceptor creates in a step of its worker. -/
theorem handlers_of_trans (hs : Placed s) (h : Trans cfg s a t) (g : ℕ) :
    t.handlers g <:+ s.handlers g ∨ g = s.gen + 1 ∧ t.gen = s.gen + 1 ∨
      ∃ w, a.worker = some w ∧ s.At (.acceptor g) (.selector w) := by
  have hpop {g' : ℕ} {x : Handler} {q : List Handler} (hqueue : s.handlers g' = x :: q) :
      (s.setHandlers g' q).handlers g <:+ s.handlers g := by
    by_cases hgg : g = g'
    · subst hgg
      rw [s.setHandlers_self, hqueue]
      exact List.suffix_cons _ _
    · rw [s.setHandlers_of_ne q hgg]
  cases h with
  | start hmain hworkers =>
    by_cases hg : g = s.gen + 1
    · exact .inr (.inl ⟨hg, rfl⟩)
    · refine .inl ?_
      change (s.setHandlers (s.gen + 1) [.acceptor (s.gen + 1)]).handlers g <:+ _
      rw [s.setHandlers_of_ne _ hg]
  | @drain x q hmain hqueue => cases x <;> exact .inl (hpop hqueue)
  | poll hpc hqueue => exact .inl (hpop hqueue)
  | @accept w' g' r client cs hpc hbound hr =>
    by_cases hg : g = g'
    · subst hg
      exact .inr (.inr ⟨w', rfl, hs.calls w' (.accept g) (by rw [hpc]; exact List.mem_cons_self)⟩)
    · refine .inl ?_
      change (s.setHandlers g' (s.handlers g' ++ [.connector s.count])).handlers g <:+ _
      rw [s.setHandlers_of_ne _ hg]
  | _ => exact .inl List.suffix_rfl

end Inversion

/-! ### A worker that has terminated -/

/-- What can still happen to a connector that no worker serves: its peers act. Nothing is read, nor
written, nor closed. -/
structure Orphaned (u u' : NioProxy.State) : Prop where
  buffer : u'.buffer = u.buffer
  closed : u'.closed = u.closed
  issued : ∀ i, (u'.chan i).issued = (u.chan i).issued
  shut : ∀ i, (u'.chan i).shut = (u.chan i).shut
  inq : ∀ i, (u.chan i).inq <+: (u'.chan i).inq

namespace Orphaned

variable {u u' u'' : NioProxy.State}

theorem refl (u : NioProxy.State) : Orphaned u u :=
  ⟨rfl, rfl, fun _ => rfl, fun _ => rfl, fun _ => List.prefix_rfl⟩

theorem trans (h : Orphaned u u') (h' : Orphaned u' u'') : Orphaned u u'' where
  buffer := h'.buffer.trans h.buffer
  closed := h'.closed.trans h.closed
  issued i := (h'.issued i).trans (h.issued i)
  shut i := (h'.shut i).trans (h.shut i)
  inq i := (h.inq i).trans (h'.inq i)

theorem acted {i : Side} {ev : Sock.Peer} {y : Sock} (hy : (u.chan i).peer ev = some y) :
    Orphaned u (u.acted i ev y) := by
  have hself : (u.acted i ev y).chan i = y := Function.update_self ..
  have hother : (u.acted i ev y).chan i.other = u.chan i.other :=
    Function.update_of_ne i.other_ne ..
  obtain ⟨hissued, hshut⟩ := Sock.peer_eq hy
  obtain ⟨hopen, hlost, -⟩ := Sock.peer_payload hy
  refine ⟨rfl, rfl, fun j => ?_, fun j => ?_, fun j => ?_⟩ <;>
    rcases i.eq_or_eq_other j with rfl | rfl
  · rw [hself, hissued]
  · rw [hother]
  · rw [hself, hshut]
  · rw [hother]
  · rw [hself]
    by_cases hs : (u.chan j).shut = true
    · rw [hlost hs]
    · rw [hopen (Bool.eq_false_iff.mpr hs)]
      exact List.prefix_append _ _
  · rw [hother]

end Orphaned

/-- What a worker that has terminated has left from one state to a later one. -/
structure Left (w : Worker) (s t : State) : Prop where
  pc : t.pc w = .terminated
  connector : ∀ c u, s.connector c = .registered w u →
    ∃ u', t.connector c = .registered w u' ∧ Orphaned u u'
  acceptor : ∀ g o, s.acceptor g = .registered w o →
    t.acceptor g = .registered w o ∧ t.handlers g <:+ s.handlers g

section Left

variable {cfg : TcpServerConfig} {s t t' : State} {a : Act} {w : Worker}

theorem Left.refl (hw : s.pc w = .terminated) : Left w s s :=
  ⟨hw, fun _ u hc => ⟨u, hc, .refl u⟩, fun _ _ hg => ⟨hg, List.suffix_rfl⟩⟩

theorem Left.trans (h : Left w s t) (h' : Left w t t') : Left w s t' := by
  refine ⟨h'.pc, fun c u hc => ?_, fun g o hg => ?_⟩
  · obtain ⟨u', hc', hu⟩ := h.connector c u hc
    obtain ⟨u'', hc'', hu'⟩ := h'.connector c u' hc'
    exact ⟨u'', hc'', hu.trans hu'⟩
  · obtain ⟨hg', hsuffix⟩ := h.acceptor g o hg
    obtain ⟨hg'', hsuffix'⟩ := h'.acceptor g o hg'
    exact ⟨hg'', hsuffix'.trans hsuffix⟩

theorem Left.step (hs : Placed s) (hw : s.pc w = .terminated)
    (hstep : (tcpProxy cfg).step s a = some t) : Left w s t := by
  have htrans := trans_of_step hstep
  have hdone : a.worker ≠ some w := fun ha => not_done_of_trans htrans ha (.inr hw)
  refine ⟨?_, fun c u hc => ?_, fun g o hg => ?_⟩
  · rcases pc_of_trans hs htrans w with heq | ⟨-, ha, -⟩ | ⟨hunborn, -⟩
    · exact heq.trans hw
    · exact absurd ha hdone
    · cases hw.symm.trans hunborn
  · obtain heq | ⟨ha, -⟩ | ⟨i, ev, y, hy, heq⟩ := connector_of_trans hs htrans hc
    · exact ⟨u, heq, .refl u⟩
    · exact absurd ha hdone
    · exact ⟨_, heq, .acted hy⟩
  · have hat : s.At (.acceptor g) (.selector w) := by
      change (s.acceptor g).status = _
      rw [hg]
      rfl
    refine ⟨?_, ?_⟩
    · rcases acceptor_of_trans hs htrans hg with heq | ⟨rfl, -⟩
      · exact heq
      · exact absurd rfl hdone
    · obtain hsuffix | ⟨rfl, -⟩ | ⟨v, ha, hat'⟩ := handlers_of_trans hs htrans g
      · exact hsuffix
      · cases hs.eq_of_at hat (hs.born _ (Nat.lt_irrefl (s.gen)))
      · obtain rfl := Place.selector.inj (hs.eq_of_at hat' hat)
        exact absurd ha hdone

/-- **What a worker leaves.** Once a worker has terminated, the connectors that are registered with
its selector are neither read, nor written, nor closed by anybody, and if the acceptor is, no
connector is created any more. -/
theorem tcpProxy_orphaned {as bs : List Act} (hs : (tcpProxy cfg).run .new as = some s)
    (hw : s.pc w = .terminated) (ht : (tcpProxy cfg).run s bs = some t) :
    (∀ c u, s.connector c = .registered w u →
      ∃ u', t.connector c = .registered w u' ∧ Orphaned u u') ∧
    ∀ g o, s.acceptor g = .registered w o →
      t.acceptor g = .registered w o ∧ t.handlers g <:+ s.handlers g := by
  have hleft : Placed t ∧ Left w s t :=
    Machine.invariant_of_step (I := fun t => Placed t ∧ Left w s t)
      (fun t _ t' ⟨ht, hleft⟩ hstep =>
        ⟨(ht.step hstep).placed, hleft.trans (.step ht hleft.pc hstep)⟩)
      ⟨(Placed.new.run hs).placed, .refl hw⟩ ht
  exact ⟨hleft.2.connector, hleft.2.acceptor⟩

/-- While the second worker of a pair serves the first connection, the second one costs it its
life: the server cannot be resolved any more. -/
def unresolved : List Act :=
  accepts ++ serves ++ [.clear (1, 1), .loop (1, 1), .clear (1, 0), .loop (1, 0), .poll (1, 0),
    .select (1, 0) (some [.acceptor 1]), .accept (1, 0) (.accepted 8), .poll (1, 1),
    .register (1, 1) .runtimeException]

/-- What the client of the first connection sends is not read. -/
theorem tcpProxy_orphaned_unresolved : ∃ s t u u', (tcpProxy pair).run .new unresolved = some s ∧
    (tcpProxy pair).run s [.peer 0 .client (.deliver [4])] = some t ∧
      s.connector 0 = .registered (1, 1) u ∧ t.connector 0 = .registered (1, 1) u' ∧
        Orphaned u u' := by
  have hrun : ((tcpProxy pair).run .new unresolved).any (fun s =>
      decide (s.At (.connector 0) (.selector (1, 1)) ∧ s.pc (1, 1) = .terminated) &&
        ((tcpProxy pair).run s [.peer 0 .client (.deliver [4])]).isSome) = true := by decide
  obtain ⟨s, hs, hrun⟩ := (Option.any_eq_true ..).mp hrun
  obtain ⟨hat, hrun⟩ := Bool.and_eq_true_iff.mp hrun
  obtain ⟨hat, hw⟩ := of_decide_eq_true hat
  obtain ⟨t, ht⟩ := Option.isSome_iff_exists.mp hrun
  obtain ⟨u, hu⟩ := Connector.status_eq_registered.mp hat
  obtain ⟨u', hu', horphaned⟩ := (tcpProxy_orphaned hs hw ht).1 0 u hu
  exact ⟨s, t, u, u', hs, ht, hu, hu', horphaned⟩

end Left

/-! ### What `shutdown()` leaves -/

/-- The invariant of `shutdown()`, as long as its caller is not interrupted: earlier generations
have ended, and of this one the workers that have been joined have. -/
structure Stopping (cfg : TcpServerConfig) (s : State) : Prop where
  placed : Placed s
  calm : s.interrupted = false
  index : ∀ w : Worker, cfg.workerCount ≤ w.2 → s.pc w = .unborn
  past : ∀ w : Worker, w.1 < s.gen → (s.pc w).Done
  queue : ∀ g < s.gen, s.handlers g = []
  idle : s.main = .idle → s.workers = false → (∀ w, (s.pc w).Done) ∧ s.handlers s.gen = []
  joining : ∀ i b, s.main = .joining i b → ∀ j < i, s.pc (s.gen, j) = .terminated
  draining : s.main = .draining → ∀ w, (s.pc w).Done
  started : ∀ h w, s.At h (.selector w) → s.pc w ≠ .unborn

namespace Stopping

variable {cfg : TcpServerConfig} {s t : State} {a : Act} {w : Worker}

theorem new : Stopping cfg .new where
  placed := .new
  calm := rfl
  index _ _ := rfl
  past _ hw := absurd hw (Nat.not_lt_zero _)
  queue _ hg := absurd hg (Nat.not_lt_zero _)
  idle _ _ := ⟨fun _ => .inl rfl, rfl⟩
  joining _ _ h := by cases h
  draining h := by cases h
  started h _ hat := by cases h <;> cases hat

theorem started_of_trans (h : Stopping cfg s) (htrans : Trans cfg s a t) (x : Handler) (w : Worker)
    (hat : t.At x (.selector w)) : t.pc w ≠ .unborn := by
  have hborn : s.pc w ≠ .unborn := by
    rcases registered_of_trans htrans hat with hat | ha
    · exact h.started x w hat
    · exact fun hunborn => not_done_of_trans htrans ha (.inl hunborn)
  rcases pc_of_trans h.placed htrans w with heq | ⟨-, -, hne⟩ | ⟨hunborn, -⟩
  · rwa [heq]
  · exact hne
  · exact absurd hunborn hborn

/-- A worker goes on. -/
theorem worker (h : Stopping cfg s) (ht : Placed t) (htrans : Trans cfg s a t)
    (ha : a.worker = some w) (hgen : t.gen = s.gen) (hmain : t.main = s.main)
    (hworkers : t.workers = s.workers) (hcalm : t.interrupted = s.interrupted) :
    Stopping cfg t := by
  have hw : ¬ (s.pc w).Done := not_done_of_trans htrans ha
  have hpc (v : Worker) (hv : (s.pc v).Done) (hnew : ¬ (v.1 = s.gen + 1 ∧ v.2 < cfg.workerCount)) :
      t.pc v = s.pc v := by
    rcases pc_of_trans h.placed htrans v with heq | ⟨hnot, -⟩ | ⟨-, -, hv'⟩
    · exact heq
    · exact absurd hv hnot
    · exact absurd hv' hnew
  refine ⟨ht, hcalm.trans h.calm, fun v hv => ?_, fun v hv => ?_, fun g hg => ?_,
    fun hidle hnull => ?_, fun i b hjoining j hj => ?_, fun hdraining => ?_,
    h.started_of_trans htrans⟩
  · have hunborn := h.index v hv
    rw [hpc v (.inl hunborn) fun hnew => hv.not_gt hnew.2, hunborn]
  · rw [hgen] at hv
    have hdone := h.past v hv
    rwa [hpc v hdone fun hnew => absurd hv (by omega)]
  · rw [hgen] at hg
    rcases handlers_of_trans h.placed htrans g with hsuffix | ⟨rfl, -⟩ | ⟨v, ha', hat⟩
    · rw [h.queue g hg] at hsuffix
      exact List.suffix_nil.mp hsuffix
    · exact absurd hg (by omega)
    · -- the worker of an earlier acceptor has ended
      obtain rfl := Option.some.inj (ha.symm.trans ha')
      rcases h.placed.own g _ hat with hnone | heq
      · cases hnone
      · exact absurd (h.past w (Option.some.inj heq ▸ hg)) hw
  · exact absurd ((h.idle (hmain ▸ hidle) (hworkers ▸ hnull)).1 w) hw
  · have hterminated := h.joining i b (hmain ▸ hjoining) j hj
    rw [hgen, hpc _ (.inr hterminated) fun hnew => absurd hnew.1 (by omega), hterminated]
  · exact absurd (h.draining (hmain ▸ hdraining) w) hw

/-- All workers have been joined. -/
theorem joined (h : Stopping cfg s) {i : ℕ} (hmain : s.main = .joining i false)
    (hi : cfg.workerCount ≤ i) (w : Worker) : (s.pc w).Done := by
  rcases lt_trichotomy w.1 s.gen with hlt | heq | hgt
  · exact h.past w hlt
  · by_cases hindex : cfg.workerCount ≤ w.2
    · exact .inl (h.index w hindex)
    · have hterminated := h.joining i false hmain w.2 (by omega)
      rw [← heq] at hterminated
      exact .inr hterminated
  · exact .inl (h.placed.worker w hgt)

theorem step (h : Stopping cfg s) (ha : a ≠ .interrupt)
    (hstep : (tcpProxy cfg).step s a = some t) : Stopping cfg t := by
  have ht : Placed t := (h.placed.step hstep).placed
  have hstarted := h.started_of_trans (trans_of_step hstep)
  cases trans_of_step hstep with
  | refused hr => exact h
  | start hmain hworkers =>
    obtain ⟨hdone, hnil⟩ := h.idle hmain hworkers
    have hpc (v : Worker) (hv : ¬ (v.1 = s.gen + 1 ∧ v.2 < cfg.workerCount)) :
        (s.started cfg).pc v = s.pc v := by simp only [State.started, if_neg hv]
    refine ⟨ht, h.calm, fun v hv => ?_, fun v hv => ?_, fun g hg => ?_, fun _ hnull => ?_,
      fun i b hjoining => ?_, fun hdraining => ?_, hstarted⟩
    · rw [hpc v fun hnew => hv.not_gt hnew.2]
      exact h.index v hv
    · change v.1 < s.gen + 1 at hv
      rw [hpc v fun hnew => absurd hnew.1 hv.ne]
      exact hdone v
    · change g < s.gen + 1 at hg
      change (s.setHandlers (s.gen + 1) [.acceptor (s.gen + 1)]).handlers g = []
      rw [s.setHandlers_of_ne _ hg.ne]
      rcases Nat.lt_succ_iff_lt_or_eq.mp hg with hlt | rfl
      · exact h.queue g hlt
      · exact hnil
    · cases hnull
    · cases hmain.symm.trans hjoining
    · cases hmain.symm.trans hdraining
  | shutdown hmain hworkers =>
    refine ⟨ht, h.calm, h.index, h.past, h.queue, fun hidle => ?_, fun i b heq j hj => ?_,
      fun hdraining => ?_, hstarted⟩
    · cases hidle
    · obtain ⟨rfl, -⟩ := Main.joining.inj heq
      exact absurd hj (Nat.not_lt_zero j)
    · cases hdraining
  | @interruptWorker i hmain hi =>
    refine ⟨ht, h.calm, h.index, h.past, h.queue, fun hidle => ?_, fun i' b heq => ?_,
      fun hdraining => ?_, hstarted⟩
    · cases hidle
    · obtain ⟨rfl, -⟩ := Main.joining.inj heq
      exact h.joining i false hmain
    · cases hdraining
  | joined hmain hi =>
    refine ⟨ht, h.calm, h.index, h.past, h.queue, fun hidle => ?_, fun i' b heq => ?_,
      fun _ => h.joined hmain hi, hstarted⟩
    · cases hidle
    · cases heq
  | @join i hmain hjoin =>
    refine ⟨ht, h.calm, h.index, h.past, h.queue, fun hidle => ?_, fun i' b heq j hj => ?_,
      fun hdraining => ?_, hstarted⟩
    · cases hidle
    · obtain ⟨rfl, -⟩ := Main.joining.inj heq
      rcases Nat.lt_succ_iff_lt_or_eq.mp hj with hlt | rfl
      · exact h.joining i true hmain j hlt
      · refine hjoin.resolve_right fun hinterrupted => ?_
        rw [h.calm] at hinterrupted
        cases hinterrupted
    · cases hdraining
  | drained hmain hqueue =>
    refine ⟨ht, h.calm, h.index, h.past, h.queue, fun _ _ => ⟨h.draining hmain, hqueue⟩,
      fun i' b heq => ?_, fun hdraining => ?_, hstarted⟩
    · cases heq
    · cases hdraining
  | @drain x q hmain hqueue =>
    have hhandlers : ∀ g < s.gen, (s.setHandlers s.gen q).handlers g = [] := fun g hg => by
      rw [s.setHandlers_of_ne q hg.ne]
      exact h.queue g hg
    have hidle {P : Prop} (heq : s.main = .idle) : P := by cases hmain.symm.trans heq
    have hjoining {P : Prop} {i : ℕ} {b : Bool} (heq : s.main = .joining i b) : P := by
      cases hmain.symm.trans heq
    cases x <;>
      exact ⟨ht, h.calm, h.index, h.past, hhandlers, hidle, fun _ _ => hjoining, h.draining,
        hstarted⟩
  | interrupt => exact absurd rfl ha
  | peerClient hc hpeer | peer hc hpeer =>
    exact ⟨ht, h.calm, h.index, h.past, h.queue, h.idle, h.joining, h.draining, hstarted⟩
  | _ => exact h.worker ht (trans_of_step hstep) rfl rfl rfl rfl rfl

end Stopping

/-- **What `shutdown()` leaves.** When `shutdown()` has returned, and its caller has never been
interrupted, all workers have terminated and the queues are empty; every handler has been destroyed
or has failed to be registered, or it has been registered with the selector of a worker, which has
terminated, and that did not close it. -/
theorem tcpProxy_shutdown {cfg : TcpServerConfig} {s : State} {as : List Act}
    (hcalm : ∀ a ∈ as, a ≠ .interrupt) (hrun : (tcpProxy cfg).run .new as = some s)
    (hmain : s.main = .idle) (hworkers : s.workers = false) :
    (∀ w, s.pc w = .unborn ∨ s.pc w = .terminated) ∧ (∀ g, s.handlers g = []) ∧
      ∀ h, s.At h .absent ∨ s.At h .finished ∨
        ∃ w, s.At h (.selector w) ∧ s.pc w = .terminated := by
  have h : Stopping cfg s :=
    Machine.Along.invariant (fun _ _ _ h ha hstep => h.step ha hstep)
      (Machine.along_of_forall_mem hcalm _) .new hrun
  obtain ⟨hdone, hnil⟩ := h.idle hmain hworkers
  have hempty (g : ℕ) : s.handlers g = [] := by
    rcases lt_trichotomy g s.gen with hlt | rfl | hgt
    · exact h.queue g hlt
    · exact hnil
    · exact List.eq_nil_iff_forall_not_mem.mpr fun x hx => hgt.not_ge (h.placed.queue g x hx)
  refine ⟨hdone, hempty, fun x => ?_⟩
  obtain ⟨p, hp, -⟩ := h.placed.place x
  cases p with
  | absent => exact .inl hp
  | queue g =>
    change x ∈ s.handlers g at hp
    rw [hempty g] at hp
    cases hp
  | worker w =>
    change s.pc w = .register x at hp
    rcases hdone w with heq | heq <;> cases heq.symm.trans hp
  | selector w => exact .inr (.inr ⟨w, hp, (hdone w).resolve_left (h.started x w hp)⟩)
  | finished => exact .inr (.inl hp)

/-- A pair of workers is shut down while it serves a connection. -/
def stops : List Act :=
  accepts ++ serves ++ [.shutdown, .next, .clear (1, 0), .loop (1, 0), .next, .next, .clear (1, 1),
    .loop (1, 1), .next, .next, .next]

theorem tcpProxy_shutdown_pair : ∃ s, (tcpProxy pair).run .new stops = some s ∧
    s.At (.connector 0) (.selector (1, 1)) ∧
      (∀ w, s.pc w = .unborn ∨ s.pc w = .terminated) ∧ (∀ g, s.handlers g = []) ∧
        ∀ h, s.At h .absent ∨ s.At h .finished ∨
          ∃ w, s.At h (.selector w) ∧ s.pc w = .terminated := by
  have hrun : ((tcpProxy pair).run .new stops).any (fun s =>
      decide (s.At (.connector 0) (.selector (1, 1)) ∧ s.main = .idle ∧ s.workers = false)) =
        true := by decide
  obtain ⟨s, hs, hat⟩ := (Option.any_eq_true ..).mp hrun
  obtain ⟨hat, hmain, hworkers⟩ := of_decide_eq_true hat
  exact ⟨s, hs, hat, tcpProxy_shutdown (by decide) hs hmain hworkers⟩

/-! ### One worker accepts -/

section Accept

variable {cfg : TcpServerConfig} {s t : State} {a : Act} {w : Worker} {g : ℕ}

/-- An acceptor is registered when the port is free. -/
theorem bound_of_trans (h : Trans cfg s a t) {o : Bool} (hg : t.acceptor g = .registered w o) :
    s.acceptor g = .registered w o ∨ a = .accept w .closedByInterrupt ∨
      (o = true ∧ s.PortFree cfg) ∧ a.worker = some w ∧ s.pc w = .register (.acceptor g) := by
  have hkeep {g' : ℕ} {y : Acceptor} (hy : ∀ v o, y ≠ .registered v o)
      (hg : (s.setAcceptor g' y).acceptor g = .registered w o) :
      s.acceptor g = .registered w o := by
    by_cases hgg : g = g'
    · subst hgg
      exact absurd ((Function.update_self ..).symm.trans hg) (hy w o)
    · exact (Function.update_of_ne hgg ..).symm.trans hg
  cases h with
  | start hmain hworkers => exact .inl (hkeep (y := .constructed) (by simp) hg)
  | @drain x q hmain hqueue =>
    cases x with
    | acceptor g' => exact .inl (hkeep (y := .destroyed) (by simp) hg)
    | connector c => exact .inl hg
  | @bind v g' room hpc hfree =>
    by_cases hgg : g = g'
    · subst hgg
      obtain ⟨rfl, rfl⟩ := Acceptor.registered.inj ((Function.update_self ..).symm.trans hg)
      exact .inr (.inr ⟨⟨rfl, hfree⟩, rfl, hpc⟩)
    · exact .inl ((Function.update_of_ne hgg ..).symm.trans hg)
  | bindThrows hpc hr => exact .inl (hkeep (by simp) hg)
  | @acceptInterrupted v g' cs hpc hbound hinterrupt =>
    by_cases hgg : g = g'
    · subst hgg
      obtain ⟨rfl, -⟩ := Acceptor.registered.inj ((Function.update_self ..).symm.trans hg)
      exact .inr (.inl rfl)
    · exact .inl ((Function.update_of_ne hgg ..).symm.trans hg)
  | _ => exact .inl hg

/-- A connection is accepted by the worker of an acceptor that is open. -/
theorem acceptor_of_accept (hs : Placed s) {r : Acceptance} (h : Trans cfg s (.accept w r) t)
    (hr : r.client ≠ none) : ∃ g, s.acceptor g = .registered w true := by
  cases h with
  | refused ha => rcases ha with ha | ha <;> cases ha
  | @accept w g r client cs hpc hbound hr' =>
    have hat : (s.acceptor g).status = .registered w :=
      hs.calls w (.accept g) (by rw [hpc]; exact List.mem_cons_self)
    refine ⟨g, ?_⟩
    cases hg : s.acceptor g with
    | registered v o =>
      rw [hg] at hat hbound
      obtain rfl := Status.registered.inj hat
      obtain rfl : o = true := hbound
      rfl
    | _ => rw [hg] at hat; cases hat
  | acceptInterrupted hpc hbound hinterrupt => exact absurd rfl hr
  | acceptNothing hpc hnone => exact absurd hnone hr

/-- The invariant of a port: at most one acceptor has ever been bound to it, it is open, and its
worker has accepted all connections. -/
structure Bound (past : List Act) (s : State) : Prop where
  placed : Placed s
  isOpen : ∀ g w o, s.acceptor g = .registered w o → o = true
  unique : ∀ g g' w w' o o', s.acceptor g = .registered w o → s.acceptor g' = .registered w' o' →
    g = g'
  accepted : ∀ w r, .accept w r ∈ past → r.client ≠ none → ∃ g, s.acceptor g = .registered w true

theorem Bound.new : Bound [] .new where
  placed := .new
  isOpen _ _ _ h := by cases h
  unique _ _ _ _ _ _ h := by cases h
  accepted _ _ h := by cases h

theorem Bound.step {past : List Act} (h : Bound past s) (hport : cfg.port ≠ 0)
    (ha : ∀ w, a ≠ .accept w .closedByInterrupt) (hstep : (tcpProxy cfg).step s a = some t) :
    Bound (past ++ [a]) t := by
  have htrans := trans_of_step hstep
  have hkeep {g : ℕ} {w : Worker} {o : Bool} (hg : s.acceptor g = .registered w o) :
      t.acceptor g = .registered w o :=
    (acceptor_of_trans h.placed htrans hg).resolve_right fun heq => ha w heq.1
  have hnew {g : ℕ} {w : Worker} {o : Bool} (hg : t.acceptor g = .registered w o) :
      s.acceptor g = .registered w o ∨
        (o = true ∧ s.PortFree cfg) ∧ a.worker = some w ∧ s.pc w = .register (.acceptor g) :=
    (bound_of_trans htrans hg).imp_right fun h => h.resolve_left (ha w)
  -- when the port is free, no acceptor has been bound to it
  have hfree (hport' : s.PortFree cfg) (g : ℕ) (w : Worker) (o : Bool) :
      s.acceptor g ≠ .registered w o := fun hg => by
    have hgen : g ≤ s.gen := by
      by_contra hnot
      have habsent : (s.acceptor g).status = .absent := h.placed.born (.acceptor g) hnot
      rw [hg] at habsent
      cases habsent
    have hbound := (hport'.resolve_left hport) g hgen
    rw [hg, h.isOpen g w o hg] at hbound
    cases hbound
  refine ⟨(h.placed.step hstep).placed, fun g w o hg => ?_, fun g g' w w' o o' hg hg' => ?_,
    fun w r hmem hr => ?_⟩
  · exact (hnew hg).elim (h.isOpen g w o) fun hbind => hbind.1.1
  · rcases hnew hg with hold | ⟨⟨-, hport'⟩, hw, hpc⟩ <;>
      rcases hnew hg' with hold' | ⟨⟨-, hport''⟩, hw', hpc'⟩
    · exact h.unique g g' w w' o o' hold hold'
    · exact absurd hold (hfree hport'' g w o)
    · exact absurd hold' (hfree hport' g' w' o')
    · obtain rfl := Option.some.inj (hw.symm.trans hw')
      exact Handler.acceptor.inj (Pc.register.inj (hpc.symm.trans hpc'))
  · rcases List.mem_append.mp hmem with hmem | hmem
    · obtain ⟨g, hg⟩ := h.accepted w r hmem hr
      exact ⟨g, hkeep hg⟩
    · obtain rfl := List.mem_singleton.mp hmem
      obtain ⟨g, hg⟩ := acceptor_of_accept h.placed htrans hr
      exact ⟨g, hkeep hg⟩

/-- **One worker accepts.** When the port is a fixed one, and `accept` is not interrupted, one
worker accepts all connections that are ever accepted, however often the server is shut down and
started again: one that is started again after it has accepted a connection accepts none. -/
theorem tcpProxy_restarted {as : List Act} (hport : cfg.port ≠ 0)
    (hcalm : ∀ a ∈ as, ∀ w, a ≠ .accept w .closedByInterrupt)
    (hrun : (tcpProxy cfg).run .new as = some s) :
    ∃ w, ∀ v r, .accept v r ∈ as → r.client ≠ none → v = w := by
  have h : Bound as s :=
    (Machine.along_of_forall_mem hcalm _).labels_invariant
      (fun _ _ _ _ h ha hstep => h.step hport ha hstep) Bound.new hrun
  by_cases haccept : ∃ w r, .accept w r ∈ as ∧ r.client ≠ none
  · obtain ⟨w, r, hmem, hr⟩ := haccept
    refine ⟨w, fun v r' hmem' hr' => ?_⟩
    obtain ⟨g, hg⟩ := h.accepted w r hmem hr
    obtain ⟨g', hg'⟩ := h.accepted v r' hmem' hr'
    obtain rfl := h.unique g g' w v true true hg hg'
    exact (Acceptor.registered.inj (hg'.symm.trans hg)).1
  · exact ⟨(0, 0), fun v r hmem hr => absurd ⟨v, r, hmem, hr⟩ haccept⟩

/-- The first worker has accepted a connection, and the server has been shut down and started again:
the acceptor finds the port bound. -/
def restarts : List Act :=
  accepts ++ [.shutdown, .opening (1, 1) true, .next, .clear (1, 0), .loop (1, 0), .next, .next,
    .loop (1, 1), .next, .next, .next, .next, .start, .opening (2, 0) true, .loop (2, 0),
    .poll (2, 0), .register (2, 0) .ioException]

theorem tcpProxy_restarted_pair : ∃ s, (tcpProxy pair).run .new restarts = some s ∧
    s.acceptor 2 = .failed ∧ ∃ w, ∀ v r, .accept v r ∈ restarts → r.client ≠ none → v = w := by
  have hrun : ((tcpProxy pair).run .new restarts).any
      (fun s => decide (s.acceptor 2 = .failed)) = true := by decide
  obtain ⟨s, hs, hfailed⟩ := (Option.any_eq_true ..).mp hrun
  refine ⟨s, hs, of_decide_eq_true hfailed, tcpProxy_restarted (by decide) ?_ hs⟩
  rintro a ha w rfl
  simp [restarts, accepts] at ha

end Accept

/-! ### The cost of an exception -/

/-- A connector has been left behind by a `register` that has thrown. -/
def Connector.isAbandoned : Connector → Bool
  | .abandoned _ => true
  | _ => false

section Abandoned

variable {cfg : TcpServerConfig} {s t : State} {a : Act} {c : ℕ}

/-- A connector is abandoned by a worker that terminates. -/
theorem abandoned_of_trans (h : Trans cfg s a t) (hc : (t.connector c).isAbandoned = true) :
    (s.connector c).isAbandoned = true ∨
      ∃ w, a.worker = some w ∧ s.pc w = .register (.connector c) ∧ t.pc w = .terminated := by
  have hkeep {c' : ℕ} {x : Connector} (hx : x.isAbandoned = false)
      (hc : ((s.setConnector c' x).connector c).isAbandoned = true) :
      (s.connector c).isAbandoned = true := by
    by_cases hcc : c = c'
    · subst hcc
      rw [connector_setConnector_self, hx] at hc
      cases hc
    · rwa [connector_setConnector_of_ne hcc] at hc
  cases h with
  | @drain x q hmain hqueue =>
    cases x with
    | acceptor g => exact .inl hc
    | connector c' => exact .inl (hkeep (x := .destroyed) rfl hc)
  | connect hpc hc' | connectFails hpc hc' | call hpc hc' hcall | callInterrupted hpc hc'
  | peerClient hc' hpeer | peer hc' hpeer => exact .inl (hkeep (by rfl) hc)
  | @connectThrows w c' client hpc hc' =>
    by_cases hcc : c = c'
    · subst hcc
      exact .inr ⟨w, rfl, hpc, State.goto_pc_self ..⟩
    · refine .inl ?_
      change ((s.setConnector c' _).connector c).isAbandoned = true at hc
      rwa [connector_setConnector_of_ne hcc] at hc
  | @accept w g r client cs hpc hbound hr =>
    exact .inl (@hkeep s.count (.constructed client) rfl hc)
  | _ => exact .inl hc

/-- Each connector that has been abandoned has cost a worker. -/
structure Paid (cfg : TcpServerConfig) (s : State) : Prop where
  placed : Placed s
  index : ∀ w : Worker, s.pc w ≠ .unborn → 1 ≤ w.1 ∧ w.1 ≤ s.gen ∧ w.2 < cfg.workerCount
  paid : ∃ f : ℕ → Worker,
    (∀ c, (s.connector c).isAbandoned = true → s.pc (f c) = .terminated) ∧
      ∀ c c', (s.connector c).isAbandoned = true → (s.connector c').isAbandoned = true →
        f c = f c' → c = c'

theorem Paid.new : Paid cfg .new where
  placed := .new
  index _ h := absurd rfl h
  paid := by
    refine ⟨fun _ => (0, 0), fun c hc => ?_, fun c c' hc => ?_⟩
    · cases hc
    · cases hc

theorem gen_of_trans (h : Trans cfg s a t) : s.gen ≤ t.gen := by
  cases h with
  | start hmain hworkers => exact Nat.le_succ _
  | @drain x q hmain hqueue => cases x <;> exact le_rfl
  | _ => exact le_rfl

theorem Paid.step (h : Paid cfg s) (hstep : (tcpProxy cfg).step s a = some t) : Paid cfg t := by
  have htrans := trans_of_step hstep
  obtain ⟨f, hterminated, hinj⟩ := h.paid
  have hstill (w : Worker) (hw : s.pc w = .terminated) : t.pc w = .terminated := by
    rcases pc_of_trans h.placed htrans w with heq | ⟨hnot, -⟩ | ⟨hunborn, -⟩
    · exact heq.trans hw
    · exact absurd (.inr hw) hnot
    · cases hw.symm.trans hunborn
  refine ⟨(h.placed.step hstep).placed, fun w hw => ?_, ?_⟩
  · rcases pc_of_trans h.placed htrans w with heq | ⟨hnot, -⟩ | ⟨-, -, hgen, hindex⟩
    · obtain ⟨hpos, hle, hindex⟩ := h.index w (heq ▸ hw)
      exact ⟨hpos, hle.trans (gen_of_trans htrans), hindex⟩
    · obtain ⟨hpos, hle, hindex⟩ := h.index w fun hunborn => hnot (.inl hunborn)
      exact ⟨hpos, hle.trans (gen_of_trans htrans), hindex⟩
    · refine ⟨hgen ▸ Nat.succ_pos _, ?_, hindex⟩
      by_contra hlt
      exact hw ((h.placed.step hstep).placed.worker w (not_le.mp hlt))
  · -- the worker of this step pays for the connector that it abandons, if any
    refine ⟨fun c => if (s.connector c).isAbandoned then f c else a.worker.getD (0, 0),
      fun c hc => ?_, fun c c' hc hc' heq => ?_⟩
    · dsimp only
      split_ifs with hold
      · exact hstill _ (hterminated c hold)
      · obtain ⟨w, ha, -, hw⟩ := (abandoned_of_trans htrans hc).resolve_left hold
        rw [ha]
        exact hw
    · have hnew {c c' : ℕ} (hold : (s.connector c).isAbandoned = true)
          (hc' : (t.connector c').isAbandoned = true)
          (hnot : ¬ (s.connector c').isAbandoned = true) : f c ≠ a.worker.getD (0, 0) := by
        obtain ⟨w, ha, hpc, -⟩ := (abandoned_of_trans htrans hc').resolve_left hnot
        rw [ha]
        rintro rfl
        cases hpc.symm.trans (hterminated c hold)
      dsimp only at heq
      split_ifs at heq with hold hold' hold'
      · exact hinj c c' hold hold' heq
      · exact absurd heq (hnew hold hc' hold')
      · exact absurd heq.symm (hnew hold' hc hold)
      · obtain ⟨w, ha, hpc, -⟩ := (abandoned_of_trans htrans hc).resolve_left hold
        obtain ⟨w', ha', hpc', -⟩ := (abandoned_of_trans htrans hc').resolve_left hold'
        obtain rfl := Option.some.inj (ha.symm.trans ha')
        exact Handler.connector.inj (Pc.register.inj (hpc.symm.trans hpc'))

/-- **The cost of an exception.** A proxy abandons no more connections than it has ever had workers,
and when it has abandoned so many, no worker is left. -/
theorem tcpProxy_abandoned {as : List Act} (hrun : (tcpProxy cfg).run .new as = some s) :
    ((Finset.range s.count).filter fun c => (s.connector c).isAbandoned).card ≤
        s.gen * cfg.workerCount ∧
      (((Finset.range s.count).filter fun c => (s.connector c).isAbandoned).card =
        s.gen * cfg.workerCount → ∀ w, s.pc w = .unborn ∨ s.pc w = .terminated) := by
  have h : Paid cfg s := Machine.invariant_of_step (fun _ _ _ h hstep => h.step hstep) .new hrun
  obtain ⟨f, hterminated, hinj⟩ := h.paid
  generalize hA : ((Finset.range s.count).filter fun c => (s.connector c).isAbandoned) = A
  have hmem {c : ℕ} (hc : c ∈ A) : (s.connector c).isAbandoned = true := by
    rw [← hA] at hc
    exact (Finset.mem_filter.mp hc).2
  have hinjOn : Set.InjOn f A := fun c hc c' hc' => hinj c c' (hmem hc) (hmem hc')
  have hsubset : A.image f ⊆ Finset.Icc 1 s.gen ×ˢ Finset.range cfg.workerCount := by
    intro w hw
    obtain ⟨c, hc, rfl⟩ := Finset.mem_image.mp hw
    obtain ⟨hpos, hle, hindex⟩ := h.index (f c) (by rw [hterminated c (hmem hc)]; simp)
    exact Finset.mem_product.mpr ⟨Finset.mem_Icc.mpr ⟨hpos, hle⟩, Finset.mem_range.mpr hindex⟩
  have hcard : (Finset.Icc 1 s.gen ×ˢ Finset.range cfg.workerCount).card =
      s.gen * cfg.workerCount := by
    rw [Finset.card_product, Nat.card_Icc, Finset.card_range, Nat.add_sub_cancel]
  rw [← Finset.card_image_of_injOn hinjOn, ← hcard]
  refine ⟨Finset.card_le_card hsubset, fun heq w => ?_⟩
  have himage := Finset.eq_of_subset_of_card_le hsubset heq.ge
  by_cases hw : s.pc w = .unborn
  · exact .inl hw
  · obtain ⟨hpos, hle, hindex⟩ := h.index w hw
    have hwmem : w ∈ A.image f := by
      rw [himage]
      exact Finset.mem_product.mpr ⟨Finset.mem_Icc.mpr ⟨hpos, hle⟩, Finset.mem_range.mpr hindex⟩
    obtain ⟨c, hc, rfl⟩ := Finset.mem_image.mp hwmem
    exact .inr (hterminated c (hmem hc))

/-- The second connection has cost a worker. -/
theorem tcpProxy_abandoned_unresolved : ∃ s, (tcpProxy pair).run .new unresolved = some s ∧
    (s.connector 1).isAbandoned = true ∧
    ((Finset.range s.count).filter fun c => (s.connector c).isAbandoned).card ≤
        s.gen * pair.workerCount ∧
      (((Finset.range s.count).filter fun c => (s.connector c).isAbandoned).card =
        s.gen * pair.workerCount → ∀ w, s.pc w = .unborn ∨ s.pc w = .terminated) := by
  have hrun : ((tcpProxy pair).run .new unresolved).any
      (fun s => (s.connector 1).isAbandoned) = true := by decide
  obtain ⟨s, hs, habandoned⟩ := (Option.any_eq_true ..).mp hrun
  exact ⟨s, hs, habandoned, tcpProxy_abandoned hs⟩

end Abandoned

end Parikshan.NioProxy.Server
