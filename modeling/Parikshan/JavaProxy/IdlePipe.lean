import Parikshan.JavaProxy.Replica
import Parikshan.JavaProxy.Teardown

/-!
# A pipe that nobody has written to

The pipe to the replica has no end: nobody closes `pos`. Its reader comes to know that the writer is
dead from the pipe, and the pipe does not know its writer before the first byte is put into it. A
client that ends its connection without having sent anything therefore leaves a thread behind, with
its pipe, although all sockets of the session are closed. If anything has been put into the pipe the
reader can return, once the writer has.

## Main definitions

* `Unwritten`: where the reader is as long as nothing has been put into the pipe.

## Main results

* `pipeToSock_returns_iff`: the reader can return exactly if something has been put into the pipe.
-/

namespace Parikshan.JavaProxy

/-- Nothing is in the pipe, and its reader has not come further than to its first read. -/
structure Unwritten (s : State) : Prop where
  pipe : s.pipe = []
  reader : s.pc .pipeToSock = .unstarted ∨ s.pc .pipeToSock = .loop ∨ s.pc .pipeToSock = .read
  flag : s.isRunning .pipeToSock = true

/-- The reader of the pipe, which puts nothing into it. -/
structure Reading (s : State) : Prop where
  fresh : Fresh true s
  closing : Closing true s
  noPut : ∀ rest, s.pc .pipeToSock ≠ .pipe rest
  unwritten : s.wrote = false → Unwritten s

section Steps

variable {cap : ℕ} {s t : State} {w : Worker} {c : Choice} {a : Act}

theorem Unwritten.registered : Unwritten (registered true) := ⟨rfl, .inl rfl, rfl⟩

theorem Reading.registered : Reading (registered true) :=
  ⟨.registered true, .registered true, fun _ h => (by cases h), fun _ => .registered⟩

/-- Who has written to the pipe is not forgotten, and only the worker that copies from the client
writes to it. -/
theorem wrote_step (h : (session true cap).step s a = some t) :
    (s.wrote = true → t.wrote = true) ∧
      ((s.pc .clientToServer).inLoop = false → t.wrote = s.wrote) := by
  cases a with
  | peer i e =>
    obtain ⟨x, -, -, -, rfl⟩ := step_peer h
    exact ⟨id, fun _ => rfl⟩
  | start =>
    obtain ⟨w, ws, -, rfl⟩ := step_start h
    exact ⟨id, fun _ => rfl⟩
  | work w c =>
    cases State.trans_of_work h with
    | @put T k rest hT hpc htee =>
      refine ⟨fun _ => rfl, fun hleft => ?_⟩
      obtain rfl : w = .clientToServer := by
        by_contra hw
        simp [(task_of_ne_clientToServer hT hw).2.2] at htee
      simp [hpc, Pc.inLoop] at hleft
    | _ => exact ⟨id, fun _ => rfl⟩

/-- Something has been put into the pipe if a worker has done so. -/
theorem wrote_iff {as : List Act} (hrun : (session true cap).run (registered true) as = some s) :
    s.wrote = true ↔ ∃ w k, Act.work w (.put k) ∈ as := by
  have hstart : (registered true).wrote = true ↔ ∃ w k, Act.work w (.put k) ∈ ([] : List Act) := by
    simp [registered]
  refine Machine.labels_invariant_of_step
    (J := fun as s => s.wrote = true ↔ ∃ w k, Act.work w (.put k) ∈ as)
    (fun past s a t hs h => ?_) hstart hrun
  simp only [List.mem_append, List.mem_singleton, exists_or, ← hs]
  have hkeep (hwrote : t.wrote = s.wrote) (ha : ∀ w k, a ≠ .work w (.put k)) :
      t.wrote = true ↔ s.wrote = true ∨ ∃ w k, Act.work w (.put k) = a := by
    rw [hwrote]
    refine ⟨.inl, ?_⟩
    rintro (h | ⟨w, k, rfl⟩)
    · exact h
    · exact absurd rfl (ha w k)
  cases a with
  | peer i e =>
    obtain ⟨x, -, -, -, rfl⟩ := step_peer h
    exact hkeep rfl (by simp)
  | start =>
    obtain ⟨w, ws, -, rfl⟩ := step_start h
    exact hkeep rfl (by simp)
  | work w c =>
    cases State.trans_of_work h with
    | put => exact ⟨fun _ => .inr ⟨_, _, rfl⟩, fun _ => rfl⟩
    | quit hq => exact hkeep rfl (by cases hq <;> simp)
    | raise hr => exact hkeep rfl (by cases hr <;> simp)
    | _ => exact hkeep rfl (by simp)

/-- A worker that has left its loop does not come back. -/
theorem left_step (hfresh : Fresh true s) (h : (session true cap).step s a = some t)
    (hleft : (s.pc w).inLoop = false) : (t.pc w).inLoop = false := by
  by_contra hin
  have hback : (s.pc w).inLoop = true := by
    by_cases ha : ∀ w c, a ≠ .work w c
    · exact (flow_of_other hfresh ha h).2.2.2 w ▸ (by simpa using hin)
    · simp only [ne_eq, not_forall, not_not] at ha
      obtain ⟨w', c, rfl⟩ := ha
      exact (State.trans_of_work h).inLoop (by simpa using hin)
  cases hleft.symm.trans hback

/-- The reader waits while nothing has been put into the pipe. -/
theorem Unwritten.reads (hs : Unwritten s) (hwrote : s.wrote = false)
    (h : s.Trans true cap .pipeToSock c t) : Unwritten t := by
  have hsrc {T : Task} {i : SockId} (hT : task true .pipeToSock = some T) :
      T.source ≠ .sock i := by
    obtain rfl := Option.some.inj hT
    simp [communicatePipeToSock]
  have hpc {pc : Pc} (hpc : s.pc .pipeToSock = pc)
      (hne : pc ≠ .unstarted ∧ pc ≠ .loop ∧ pc ≠ .read) : False := by
    rcases hs.reader with h | h | h <;> rw [h] at hpc <;> subst hpc <;> simp at hne
  cases h with
  | read => exact ⟨hs.pipe, .inr (.inr (by simp)), hs.flag⟩
  | recv hT _ hsock => exact absurd hsock (hsrc hT)
  | take hT _ _ hpos hle =>
    rw [hs.pipe, List.length_nil] at hle
    omega
  | send _ h => exact (hpc h (by simp)).elim
  | put _ h => exact (hpc h (by simp)).elim
  | quit hq =>
    cases hq with
    | stopped _ hflag => simp [hs.flag] at hflag
    | eof hT _ hsock => exact absurd hsock (hsrc hT)
    | readTimeout hT _ hsock => exact absurd hsock (hsrc hT)
    | writeTimeout _ h => exact (hpc h (by simp)).elim
  | raise hr =>
    cases hr with
    | readClosed hT _ hsock => exact absurd hsock (hsrc hT)
    | readFails hT _ hsock => exact absurd hsock (hsrc hT)
    | readDead _ _ _ _ hw => simp [hwrote] at hw
    | writeClosed _ h => exact (hpc h (by simp)).elim
    | writeFails _ h => exact (hpc h (by simp)).elim
    | putDead _ h => exact (hpc h (by simp)).elim
  | stop h => exact (hpc h (by simp)).elim
  | close h => exact (hpc h (by simp)).elim
  | closeFails h => exact (hpc h (by simp)).elim
  | killed h => exact (hpc h (by simp)).elim

/-- The other workers leave the pipe alone as long as nothing is put into it. -/
theorem Unwritten.others (hs : Unwritten s) (hclosing : Closing true s) (hw : w ≠ .pipeToSock)
    (h : s.Trans true cap w c t) (hwrote : t.wrote = false) : Unwritten t := by
  have hpc := h.pc_of_ne (Ne.symm hw)
  refine ⟨?_, hpc.symm ▸ hs.reader, ?_⟩
  · cases h with
    | take hT _ hsrc => exact absurd hsrc (task_of_ne_pipeToSock hT hw).1
    | put => cases hwrote
    | _ => exact hs.pipe
  · cases h with
    | raise => exact (Function.update_of_ne (Ne.symm hw) ..).trans hs.flag
    | stop h => exact absurd h (hclosing.not_stop _)
    | _ => exact hs.flag

/-- **The reader of the pipe, step by step.** -/
theorem Reading.step (hs : Reading s) (h : (session true cap).step s a = some t) : Reading t := by
  have hwrote : t.wrote = false → s.wrote = false := fun ht => by
    by_contra hs'
    simp [(wrote_step h).1 (by simpa using hs')] at ht
  refine ⟨hs.fresh.step h, hs.closing.step h, fun rest hpc => ?_, fun ht => ?_⟩
  · cases a with
    | peer i e =>
      obtain ⟨x, -, -, -, rfl⟩ := step_peer h
      exact hs.noPut rest hpc
    | start =>
      obtain ⟨w, ws, -, rfl⟩ := step_start h
      by_cases hw : .pipeToSock = w
      · subst hw
        simp at hpc
      · exact hs.noPut rest (State.goto_pc_of_ne s _ hw ▸ hpc)
    | work w c =>
      have htrans := State.trans_of_work h
      by_cases hw : .pipeToSock = w
      · subst hw
        cases htrans with
        | recv => simp [Task.afterRead] at hpc; split at hpc <;> cases hpc
        | take => simp [Task.afterRead] at hpc; split at hpc <;> cases hpc
        | send hT =>
          obtain rfl := Option.some.inj hT
          rw [State.goto_pc_self] at hpc
          split_ifs at hpc
          simp [Task.afterWrite, communicatePipeToSock] at hpc
        | put hT _ htee =>
          obtain rfl := Option.some.inj hT
          cases htee
        | _ => simp at hpc
      · exact hs.noPut rest (htrans.pc_of_ne hw ▸ hpc)
  · have hu := hs.unwritten (hwrote ht)
    cases a with
    | peer i e =>
      obtain ⟨x, -, -, -, rfl⟩ := step_peer h
      exact ⟨hu.pipe, hu.reader, hu.flag⟩
    | start =>
      obtain ⟨w, ws, -, rfl⟩ := step_start h
      refine ⟨hu.pipe, ?_, hu.flag⟩
      by_cases hw : .pipeToSock = w
      · subst hw
        exact .inr (.inl (by simp))
      · exact (State.goto_pc_of_ne s .loop hw).symm ▸ hu.reader
    | work w c =>
      by_cases hw : w = .pipeToSock
      · subst hw
        exact hu.reads (hwrote ht) (State.trans_of_work h)
      · exact hu.others hs.closing hw (State.trans_of_work h) ht

theorem reading_of_run {as : List Act}
    (hrun : (session true cap).run (registered true) as = some s) : Reading s :=
  Machine.invariant_of_step (I := Reading) (fun _ _ _ hs h => hs.step h) .registered hrun

end Steps

/-! ### The reader returns -/

section Returns

variable {cap : ℕ} {s t : State} {w : Worker} {a : Act}

/-- The reader of the pipe can return. -/
def Returns (cap : ℕ) (s : State) : Prop :=
  ∃ as t, (session true cap).run s as = some t ∧ t.pc .pipeToSock = .returned

theorem Returns.of_step (h : (session true cap).step s a = some t) (ht : Returns cap t) :
    Returns cap s := by
  obtain ⟨as, u, hrun, hu⟩ := ht
  exact ⟨a :: as, u, (Machine.run_cons_eq_some _).mpr ⟨t, h, hrun⟩, hu⟩

theorem Returns.of_run {as : List Act} (h : (session true cap).run s as = some t)
    (ht : Returns cap t) : Returns cap s := by
  obtain ⟨bs, u, hrun, hu⟩ := ht
  exact ⟨as ++ bs, u, (Machine.run_append_eq_some _).mpr ⟨t, h, hrun⟩, hu⟩

/-- With a replica each of the four workers has a task. -/
theorem exists_task (w : Worker) : ∃ T, task true w = some T := by
  cases w <;> exact ⟨_, rfl⟩

/-- A worker comes to the end of `register.kill()`. -/
theorem kill_returns (cap : ℕ) {ops : List KillOp} (hpc : s.pc w = .kill ops) :
    ∃ as t, (session true cap).run s as = some t ∧ t.pc w = .returned ∧ t.pipe = s.pipe ∧
      t.wrote = s.wrote ∧ ∀ w' ≠ w, t.pc w' = s.pc w' := by
  obtain ⟨T, hT⟩ := exists_task w
  induction ops generalizing s with
  | nil =>
    refine ⟨[.work w (.run 0)], s.goto w .returned, ?_, by simp, rfl, rfl,
      fun w' hw => State.goto_pc_of_ne s _ hw⟩
    refine (Machine.run_cons_eq_some _).mpr ⟨_, ?_, rfl⟩
    simp [session, State.work, hT, hpc, State.killStep]
  | cons op ops ih =>
    have hnext : ∃ u, (session true cap).step s (.work w (.run 0)) = some u ∧
        u.pc w = .kill ops ∧ u.pipe = s.pipe ∧ u.wrote = s.wrote ∧
        ∀ w' ≠ w, u.pc w' = s.pc w' := by
      cases op with
      | stop =>
        refine ⟨({ s with isRunning := Function.update s.isRunning .clientToServer false }).goto w
          (.kill ops), ?_, by simp, rfl, rfl, fun w' hw => State.goto_pc_of_ne _ _ hw⟩
        simp [session, State.work, hT, hpc, State.killStep]
      | close i =>
        refine ⟨(s.setSock i { s.sock i with closed := true }).goto w (.kill ops), ?_, by simp,
          rfl, rfl, fun w' hw => State.goto_pc_of_ne _ _ hw⟩
        simp [session, State.work, hT, hpc, State.killStep]
    obtain ⟨u, hu, hpcu, hpipe, hwrote, hother⟩ := hnext
    obtain ⟨as, t, hrun, hret, hpipe', hwrote', hother'⟩ := ih hpcu
    exact ⟨.work w (.run 0) :: as, t, (Machine.run_cons_eq_some _).mpr ⟨u, hu, hrun⟩, hret,
      hpipe'.trans hpipe, hwrote'.trans hwrote, fun w' hw => (hother' w' hw).trans (hother w' hw)⟩

/-- A write to the replica may fail. -/
theorem write_returns {buf rest : List Byte} (hpc : s.pc .pipeToSock = .write buf rest) :
    Returns cap s := by
  refine .of_step (a := .work .pipeToSock .fail) (t := s.raise .pipeToSock) ?_
    ⟨[], _, rfl, by simp⟩
  simp [session, State.work, task, communicatePipeToSock, hpc, State.writeSock]

/-- In its read the reader is given what is in the pipe, or finds the writer dead. -/
theorem read_returns (hpc : s.pc .pipeToSock = .read) (hwrote : s.wrote = true)
    (hleft : (s.pc .clientToServer).inLoop = false) : Returns cap s := by
  by_cases hpipe : s.pipe = []
  · have hdead {u : State} (hu : u.pc .clientToServer = .returned) (hpcu : u.pc .pipeToSock = .read)
        (hpipeu : u.pipe = []) (hwroteu : u.wrote = true) : Returns cap u := by
      refine .of_step (a := .work .pipeToSock .fail) (t := u.raise .pipeToSock) ?_
        ⟨[], _, rfl, by simp⟩
      simp [session, State.work, task, communicatePipeToSock, hpcu, State.readPipe, hpipeu, hwroteu,
        hu]
    cases hwriter : s.pc .clientToServer with
    | returned => exact hdead hwriter hpc hpipe hwrote
    | kill ops =>
      obtain ⟨as, t, hrun, hret, hpipe', hwrote', hother⟩ := kill_returns cap hwriter
      exact .of_run hrun (hdead hret ((hother _ (by simp)).trans hpc) (hpipe'.trans hpipe)
        (hwrote'.trans hwrote))
    | _ => simp [hwriter, Pc.inLoop] at hleft
  · have hlen : 1 ≤ s.pipe.length := List.length_pos_of_ne_nil hpipe
    refine .of_step (a := .work .pipeToSock (.run 1))
      (t := ({ s with pipe := s.pipe.drop 1 }).goto .pipeToSock
        (.write (s.pipe.take 1) (s.pipe.take 1))) ?_ (write_returns (State.goto_pc_self ..))
    simp [session, State.work, task, communicatePipeToSock, hpc, State.readPipe, Task.afterRead,
      hlen, requestSize]

theorem loop_returns (hpc : s.pc .pipeToSock = .loop) (hwrote : s.wrote = true)
    (hleft : (s.pc .clientToServer).inLoop = false) : Returns cap s := by
  by_cases hflag : s.isRunning .pipeToSock = true
  · refine .of_step (a := .work .pipeToSock (.run 0)) (t := s.goto .pipeToSock .read) ?_
      (read_returns (by simp) hwrote ?_)
    · simp [session, State.work, task, communicatePipeToSock, hpc, hflag]
    · rwa [State.goto_pc_of_ne s _ (by simp)]
  · refine .of_step (a := .work .pipeToSock (.run 0)) (t := s.quit true .pipeToSock) ?_ ?_
    · simp [session, State.work, task, communicatePipeToSock, hpc, hflag]
    · obtain ⟨as, t, hrun, hret, -⟩ := kill_returns cap (s := s.quit true .pipeToSock)
        (w := .pipeToSock) (State.quit_pc_self ..)
      exact ⟨as, t, hrun, hret⟩

/-- The constructor has still to start the reader. -/
theorem unstarted_returns (hfresh : Fresh true s) (hpc : s.pc .pipeToSock = .unstarted)
    (hwrote : s.wrote = true) (hleft : (s.pc .clientToServer).inLoop = false) :
    Returns cap s := by
  generalize hws : s.starting = ws
  induction ws generalizing s with
  | nil =>
    have hmem := (hfresh.mem_iff .pipeToSock).mpr ⟨by decide, hpc⟩
    simp [hws] at hmem
  | cons w ws ih =>
    have hstep : (session true cap).step s .start =
        some { s.goto w .loop with starting := ws } := by
      simp [session, State.start, hws]
    have hw : s.pc w = .unstarted := ((hfresh.mem_iff w).mp (hws ▸ List.mem_cons_self)).2
    have hleft' : (({ s.goto w .loop with starting := ws } : State).pc .clientToServer).inLoop =
        false := by
      have hne : .clientToServer ≠ w := by
        rintro rfl
        simp [hw, Pc.inLoop] at hleft
      rwa [show ({ s.goto w .loop with starting := ws } : State).pc .clientToServer =
        s.pc .clientToServer from State.goto_pc_of_ne s _ hne]
    refine .of_step hstep ?_
    by_cases hreader : .pipeToSock = w
    · subst hreader
      exact loop_returns (State.goto_pc_self s .pipeToSock .loop) hwrote hleft'
    · refine ih (hfresh.step hstep) ?_ hwrote hleft' rfl
      exact (State.goto_pc_of_ne s _ hreader).trans hpc

end Returns

/-- **A thread that never ends.** In every reachable state of a duplicating session in which the
worker that copies from the client has left its loop, the worker that reads from the pipe can still
return, or has returned, exactly if something has ever been put into the pipe. -/
theorem pipeToSock_returns_iff {cap : ℕ} {as : List Act} {s : State}
    (hrun : (session true cap).run (registered true) as = some s)
    (hleft : (s.pc .clientToServer).inLoop = false) :
    (∃ bs t, (session true cap).run s bs = some t ∧ t.pc .pipeToSock = .returned) ↔
      ∃ w k, Act.work w (.put k) ∈ as := by
  have hs := reading_of_run hrun
  rw [← wrote_iff hrun]
  refine ⟨fun ⟨bs, t, hbs, hret⟩ => ?_, fun hwrote => ?_⟩
  · by_contra hnot
    have hkept : Reading t ∧ t.wrote = false ∧ (t.pc .clientToServer).inLoop = false :=
      Machine.invariant_of_step
        (I := fun s => Reading s ∧ s.wrote = false ∧ (s.pc .clientToServer).inLoop = false)
        (fun s a t h hstep => ⟨h.1.step hstep, ((wrote_step hstep).2 h.2.2).trans h.2.1,
          left_step h.1.fresh hstep h.2.2⟩) ⟨hs, by simpa using hnot, hleft⟩ hbs
    rcases (hkept.1.unwritten hkept.2.1).reader with h | h | h <;> simp [h] at hret
  · cases hpc : s.pc .pipeToSock with
    | unstarted => exact unstarted_returns hs.fresh hpc hwrote hleft
    | loop => exact loop_returns hpc hwrote hleft
    | read => exact read_returns hpc hwrote hleft
    | write buf rest => exact write_returns hpc
    | pipe rest => exact absurd hpc (hs.noPut rest)
    | kill ops =>
      obtain ⟨bs, t, hbs, hret, -⟩ := kill_returns cap hpc
      exact ⟨bs, t, hbs, hret⟩
    | returned => exact ⟨[], s, rfl, hpc⟩

/-- A client that connects and ends its stream at once. All sockets get closed. -/
def idleClient : List Act :=
  [.start, .start, .start, .start, .peer .insocket .fin, .work .pipeToSock (.run 0),
    .work .clientToServer (.run 0), .work .clientToServer (.run 0), .work .clientToServer (.run 0),
    .work .clientToServer (.run 0), .work .clientToServer (.run 0), .work .clientToServer (.run 0)]

theorem pipeToSock_returns_iff_idleClient : ∃ s,
    (session true pipeSize).run (registered true) idleClient = some s ∧ s.AllClosed true ∧
      ¬ ∃ bs t, (session true pipeSize).run s bs = some t ∧ t.pc .pipeToSock = .returned := by
  obtain ⟨s, hrun, hclosed, hpc⟩ : ∃ s,
      (session true pipeSize).run (registered true) idleClient = some s ∧ s.AllClosed true ∧
        s.pc .clientToServer = .returned := by
    refine ⟨_, rfl, ?_, rfl⟩
    intro i hi
    cases i <;> rfl
  refine ⟨s, hrun, hclosed, fun hret => ?_⟩
  obtain ⟨w, k, hput⟩ := (pipeToSock_returns_iff hrun (by rw [hpc]; rfl)).mp hret
  simp [idleClient] at hput

end Parikshan.JavaProxy
