import Parikshan.JavaProxy.Session

/-!
# The end of a session

`register.kill()` closes all sockets of a session. A worker whose stream ends, or whose call times
out, gets there; a worker that catches any other exception does not, and returns while the sockets
are open. So does a worker in whose `register.kill()` a `close()` throws.

## Main definitions

* `Settled`: no worker has returned while a socket is open.
* `Orderly`: the condition on the steps of the workers.

## Main results

* `settled_iff`: the condition is exact.
-/

namespace Parikshan.JavaProxy

/-- All sockets of the session are closed. -/
def State.AllClosed (duplicate : Bool) (s : State) : Prop :=
  ∀ i ∈ sockets duplicate, (s.sock i).closed = true

/-- When a worker has returned, all sockets of the session are closed. -/
def Settled (duplicate : Bool) (s : State) : Prop :=
  ∀ w, s.pc w = .returned → s.AllClosed duplicate

/-- No worker catches an exception other than a timeout while a socket of the session is open, and
no `close()` throws. -/
def Orderly (duplicate : Bool) (s : State) : Act → Prop
  | .work w c =>
    (s.Raises duplicate w c → s.AllClosed duplicate) ∧
      ∀ i ops, s.pc w = .kill (.close i :: ops) → c ≠ .fail
  | _ => True

/-- A worker in `register.kill()` has closed the sockets that it is not going to close. -/
structure Closing (duplicate : Bool) (s : State) : Prop where
  suffix : ∀ w ops, s.pc w = .kill ops → ops <:+ kill duplicate
  rest : ∀ w ops, s.pc w = .kill ops → ∀ i ∈ sockets duplicate,
    .close i ∈ ops ∨ (s.sock i).closed = true

section Teardown

variable {duplicate : Bool} {cap : ℕ} {s t : State} {w : Worker} {c : Choice} {i : SockId}

theorem close_mem_kill : .close i ∈ kill duplicate ↔ i ∈ sockets duplicate := by
  cases duplicate <;> simp [kill]

theorem Closing.registered (duplicate : Bool) : Closing duplicate (registered duplicate) where
  suffix w ops h := by cases h
  rest w ops h := by cases h

theorem Closing.mem_sockets (hs : Closing duplicate s) {ops : List KillOp}
    (hpc : s.pc w = .kill (.close i :: ops)) : i ∈ sockets duplicate :=
  close_mem_kill.mp ((hs.suffix w _ hpc).subset List.mem_cons_self)

/-- In duplicate mode nobody stops a worker. -/
theorem Closing.not_stop (hs : Closing true s) (ops : List KillOp) :
    s.pc w ≠ .kill (.stop :: ops) := by
  intro hpc
  have hmem := (hs.suffix w _ hpc).subset List.mem_cons_self
  simp [kill, sockets] at hmem

/-- A step of a worker that is in `register.kill()` or comes to it. -/
theorem Closing.work (hs : Closing duplicate s) (h : s.Trans duplicate cap w c t) :
    Closing duplicate t := by
  have hclosed {i : SockId} (hi : (s.sock i).closed = true) : (t.sock i).closed = true :=
    (h.closed_iff i).mpr (Or.inl hi)
  refine ⟨fun w' ops hpc => ?_, fun w' ops hpc i hi => ?_⟩
  · by_cases hw : w' = w
    · subst hw
      obtain rfl | ⟨o, hpc₀⟩ := h.kills hpc
      · exact List.suffix_refl _
      · exact (List.suffix_cons o ops).trans (hs.suffix _ _ hpc₀)
    · exact hs.suffix w' ops (h.pc_of_ne hw ▸ hpc)
  · by_cases hw : w' = w
    · subst hw
      obtain rfl | ⟨o, hpc₀⟩ := h.kills hpc
      · exact Or.inl (close_mem_kill.mpr hi)
      · rcases hs.rest _ _ hpc₀ i hi with hmem | hdone
        · rcases List.mem_cons.mp hmem with rfl | hmem
          · exact Or.inr ((h.closed_iff i).mpr (Or.inr ⟨ops, hpc₀, hpc⟩))
          · exact Or.inl hmem
        · exact Or.inr (hclosed hdone)
    · exact (hs.rest w' ops (h.pc_of_ne hw ▸ hpc) i hi).imp_right hclosed

theorem Closing.step {a : Act} (hs : Closing duplicate s)
    (h : (session duplicate cap).step s a = some t) : Closing duplicate t := by
  cases a with
  | peer i e =>
    obtain ⟨x, -, hclosed, -, rfl⟩ := step_peer h
    exact ⟨hs.suffix, fun w ops hpc j hj => (hs.rest w ops hpc j hj).imp_right (hclosed j).trans⟩
  | start =>
    obtain ⟨w, ws, -, rfl⟩ := step_start h
    have hpc {w' : Worker} {ops : List KillOp} (hw : (s.goto w .loop).pc w' = .kill ops) :
        s.pc w' = .kill ops := by
      by_cases hne : w' = w
      · subst hne
        simp at hw
      · rwa [State.goto_pc_of_ne s _ hne] at hw
    exact ⟨fun w' ops hw => hs.suffix w' ops (hpc hw), fun w' ops hw => hs.rest w' ops (hpc hw)⟩
  | work w c => exact hs.work (State.trans_of_work h)

/-- A step that meets the condition ends a worker only when all sockets are closed. -/
theorem Settled.work (hs : Closing duplicate s) (hsettled : Settled duplicate s)
    (ha : Orderly duplicate s (.work w c)) (h : s.Trans duplicate cap w c t) :
    Settled duplicate t := by
  have hclosed (hall : s.AllClosed duplicate) : t.AllClosed duplicate := fun i hi =>
    (h.closed_iff i).mpr (Or.inl (hall i hi))
  intro w' hpc
  by_cases hw : w' = w
  · subst hw
    refine hclosed ?_
    obtain hr | ⟨i, ops, hpc₀, rfl⟩ | hpc₀ := h.returns hpc
    · exact ha.1 hr
    · exact absurd rfl (ha.2 i ops hpc₀)
    · exact fun i hi => (hs.rest _ _ hpc₀ i hi).resolve_left (by simp)
  · exact hclosed (hsettled w' (h.pc_of_ne hw ▸ hpc))

theorem Settled.step {a : Act} (hs : Closing duplicate s) (hsettled : Settled duplicate s)
    (ha : Orderly duplicate s a) (h : (session duplicate cap).step s a = some t) :
    Settled duplicate t := by
  cases a with
  | peer i e =>
    obtain ⟨x, -, hclosed, -, rfl⟩ := step_peer h
    exact fun w hpc j hj => (hclosed j).trans (hsettled w hpc j hj)
  | start =>
    obtain ⟨w, ws, -, rfl⟩ := step_start h
    intro w' hpc
    by_cases hne : w' = w
    · subst hne
      simp at hpc
    · exact hsettled w' (by simpa [State.goto_pc_of_ne s _ hne] using hpc)
  | work w c => exact hsettled.work hs ha (State.trans_of_work h)

/-- A step that does not meet the condition ends a worker while a socket is open. -/
theorem Closing.not_settled {a : Act} (hs : Closing duplicate s) (ha : ¬ Orderly duplicate s a)
    (h : (session duplicate cap).step s a = some t) : ¬ Settled duplicate t := by
  intro hsettled
  cases a with
  | peer => exact ha trivial
  | start => exact ha trivial
  | work w c =>
    rcases not_and_or.mp ha with hraise | hclose
    · obtain ⟨hr, hopen⟩ := Classical.not_imp.mp hraise
      obtain rfl := hr.eq_raise h
      exact hopen (hsettled w (by simp))
    · simp only [ne_eq, not_forall, not_not] at hclose
      obtain ⟨i, ops, hpc, rfl⟩ := hclose
      obtain ⟨T, hT, h⟩ := Option.bind_eq_some_iff.mp h
      simp only [hpc, State.killStep] at h
      split_ifs at h with hclosed
      cases h
      exact hclosed (hsettled w (by simp) i (hs.mem_sockets hpc))

end Teardown

/-- **No half-dead session.** In a run of a session, plain or duplicating, no worker has ever
returned while a socket is open if and only if no worker catches an exception other than a timeout
while a socket is open and no `close()` throws. -/
theorem settled_iff (duplicate : Bool) (cap : ℕ) (as : List Act) :
    (session duplicate cap).Along (Orderly duplicate) (registered duplicate) as ↔
      (session duplicate cap).Throughout (Settled duplicate) (registered duplicate) as := by
  refine Machine.along_iff_throughout (H := fun _ _ => True)
    (I := fun s => Closing duplicate s ∧ Settled duplicate s) ?_ (fun s hs => hs.2) ?_
    ⟨.registered duplicate, fun w h => by cases h⟩
    (Machine.along_true _ _)
  · exact fun s a t hs _ ha h => ⟨hs.1.step h, hs.2.step hs.1 ha h⟩
  · exact fun s a t hs _ ha h => hs.1.not_settled ha h

/-- The server resets its connection, and the worker that reads from it returns. -/
def serverResets : List Act :=
  [.start, .start, .work .serverToClient (.run 0), .work .serverToClient .fail]

theorem settled_fails : ¬ ∀ (duplicate : Bool) (cap : ℕ) (as : List Act) (s : State),
    (session duplicate cap).run (registered duplicate) as = some s → Settled duplicate s := by
  intro hall
  have hstate : ((session false 0).run (registered false) serverResets).map (fun s =>
      (s.pc .serverToClient, (s.sock .insocket).closed, (s.sock .outsocket).closed)) =
        some (.returned, false, false) := by decide
  obtain ⟨s, hrun, hs⟩ := Option.map_eq_some_iff.mp hstate
  simp only [Prod.mk.injEq] at hs
  have hclosed := hall false 0 serverResets s hrun .serverToClient hs.1 .insocket
    (by simp [sockets])
  simp [hs.2.1] at hclosed

end Parikshan.JavaProxy
