import Parikshan.JavaProxy.Replica
import Parikshan.JavaProxy.Teardown
import Parikshan.Machine.Simulation

/-!
# Isolation from the replica

The client and the server of a duplicating session are served by two workers, and the replica by
two others. The replica is in the way of the client and the server if one of its workers calls
`register.kill()`, if the pipe is full, or if the worker that reads from the pipe is dead when the
other one writes to it. As long as none of this happens, what the client and the server are sent
is determined by the steps of their own workers: two runs of a session that agree on them agree on
the bytes, however the replica behaves.

## Main definitions

* `forwarded`: the label of a step on the side of the client and the server.
* `Isolated`: the replica is not in the way.
* `Harmless`: the condition on the steps.

## Main results

* `replica_isolation_iff`: the condition is exact.
-/

namespace Parikshan.JavaProxy

/-- The label of a step on the side of the client and the server. How the chunks are cut on their
way into the pipe is up to the replica. -/
def forwarded : Act → Option Act
  | .peer .replicaSocket _ => none
  | .work _ (.put _) => none
  | .work .pipeToSock _ => none
  | .work .fromReplica _ => none
  | a => some a

namespace State

variable (s : State)

/-- What has been written to the client. -/
def toClient : List Byte := (s.sock .insocket).sent

/-- The sockets of the client and of the server have been closed. -/
def Over : Prop := (s.sock .outsocket).closed = true ∧ (s.sock .insocket).closed = true

end State

/-- No worker of the replica is in `register.kill()`, there is room in the pipe for a worker that
writes to it, and the other worker of the pipe is alive then. -/
structure Forwards (cap : ℕ) (s : State) : Prop where
  kills : ∀ w, w = .pipeToSock ∨ w = .fromReplica → ∀ ops, s.pc w ≠ .kill ops
  blocks : ∀ rest, s.pc .clientToServer = .pipe rest → s.pipe.length < cap
  ends : ∀ rest, s.pc .clientToServer = .pipe rest → s.pc .pipeToSock ≠ .returned

/-- The replica is not in the way of the client and the server. -/
def Isolated (cap : ℕ) (s : State) : Prop := s.Over ∨ Forwards cap s

/-- A step does no harm to the client and the server: the stream of the replica does not end and
no call on its socket times out; the worker that reads from the pipe does not die while the other
one is in `pos.write`, and is not dead when it comes there; the pipe is not full then, and does not
become full with a part of a chunk. -/
def Harmless (cap : ℕ) (s : State) (a : Act) : Prop :=
  s.Over ∨
    match a with
    | .work .clientToServer (.run k) =>
      ∀ buf rest, s.pc .clientToServer = .write buf rest → k = rest.length →
        (s.sock .outsocket).closed = false →
          s.pipe.length < cap ∧ s.pc .pipeToSock ≠ .returned
    | .work .clientToServer (.put k) =>
      ∀ rest, s.pc .clientToServer = .pipe rest → k < rest.length → s.pipe.length + k < cap
    | .work .pipeToSock c =>
      ¬ s.Quits true .pipeToSock c ∧
        (s.Raises true .pipeToSock c → ∀ rest, s.pc .clientToServer ≠ .pipe rest)
    | .work .fromReplica c => ¬ s.Quits true .fromReplica c
    | _ => True

/-! ### The condition -/

section Condition

variable {cap : ℕ} {s t : State} {w : Worker} {c : Choice} {a : Act}

/-- The sockets stay closed. -/
theorem State.Over.step (hs : s.Over) (h : (session true cap).step s a = some t) : t.Over :=
  ⟨closed_of_step h hs.1, closed_of_step h hs.2⟩

/-- The worker that reads from the pipe, and the one that reads from the replica, do not put bytes
into the pipe. -/
theorem State.Trans.pipe_length_le (h : s.Trans true cap w c t) (hw : w ≠ .clientToServer) :
    t.pipe.length ≤ s.pipe.length := by
  cases h with
  | take => simp
  | put hT hpc htee => simp [(task_of_ne_clientToServer hT hw).2.2] at htee
  | _ => exact Nat.le_refl _

/-- How the writer of the pipe comes to be in `pos.write`. -/
theorem State.Trans.comes_to_pipe (h : s.Trans true cap w c t) {rest : List Byte}
    (hpc : t.pc w = .pipe rest) :
    (∃ k buf rest₀, c = .run k ∧ s.pc w = .write buf rest₀ ∧ k = rest₀.length ∧
        (∃ T i, task true w = some T ∧ T.out = some i ∧ (s.sock i).closed = false) ∧
          t.pipe = s.pipe) ∨
      ∃ k rest₀, c = .put k ∧ s.pc w = .pipe rest₀ ∧ k < rest₀.length ∧
        t.pipe.length = s.pipe.length + k := by
  cases h with
  | read => simp at hpc
  | @recv T => cases hout : T.out <;> simp [Task.afterRead, hout] at hpc
  | @take T => cases hout : T.out <;> simp [Task.afterRead, hout] at hpc
  | @send T i k buf rest₀ hT hpc₀ hout hopen hpos hle =>
    simp only [State.goto_pc_self] at hpc
    split_ifs at hpc with hk
    · have hlen := congrArg List.length hk
      simp only [List.length_drop, List.length_nil] at hlen
      exact Or.inl ⟨k, buf, rest₀, rfl, hpc₀, by omega, ⟨T, i, hT, hout, hopen⟩, rfl⟩
  | @put T k rest₀ hT hpc₀ htee hpos hle =>
    simp only [State.goto_pc_self] at hpc
    split_ifs at hpc with hk
    have hlen := List.length_pos_of_ne_nil hk
    simp only [List.length_drop] at hlen
    refine Or.inr ⟨k, rest₀, rfl, hpc₀, by omega, ?_⟩
    simp only [State.goto_pipe, List.length_append, List.length_take]
    omega
  | quit => simp at hpc
  | raise => simp at hpc
  | stop => simp at hpc
  | close => simp at hpc
  | closeFails => simp at hpc
  | killed => simp at hpc

/-- A step of a worker of the replica that meets the condition does not lead to
`register.kill()`. -/
theorem Forwards.kills_of_trans (hs : Forwards cap s) (h : s.Trans true cap w c t)
    (hquits : w = .pipeToSock ∨ w = .fromReplica → ¬ s.Quits true w c) {w' : Worker}
    (hw' : w' = .pipeToSock ∨ w' = .fromReplica) (ops : List KillOp) : t.pc w' ≠ .kill ops := by
  intro hpc
  by_cases hw : w' = w
  · subst hw
    obtain ⟨hq, -⟩ | ⟨-, rfl⟩ | ⟨ops₀, hpc₀⟩ := h.leaves (by rw [hpc]; rfl)
    · exact hquits hw' hq
    · simp at hpc
    · exact hs.kills _ hw' _ hpc₀
  · exact hs.kills _ hw' ops (h.pc_of_ne hw ▸ hpc)

/-- A step of the writer of the pipe. -/
theorem Forwards.writer (hs : Forwards cap s) (hover : ¬ s.Over)
    (ha : Harmless cap s (.work .clientToServer c)) (h : s.Trans true cap .clientToServer c t) :
    Forwards cap t := by
  have ha := ha.resolve_left hover
  have hreader : t.pc .pipeToSock = s.pc .pipeToSock := h.pc_of_ne (by simp)
  refine ⟨fun w hw => hs.kills_of_trans h (by simp) hw, fun rest hpc => ?_, fun rest hpc => ?_⟩
  · obtain ⟨k, buf, rest₀, rfl, hpc₀, hk, ⟨T, i, hT, hout, hopen⟩, hpipe⟩ |
      ⟨k, rest₀, rfl, hpc₀, hk, hpipe⟩ := h.comes_to_pipe hpc
    · obtain rfl := Option.some.inj hT
      obtain rfl : SockId.outsocket = i := Option.some.inj hout
      rw [hpipe]
      exact (ha buf rest₀ hpc₀ hk hopen).1
    · rw [hpipe]
      exact ha rest₀ hpc₀ hk
  · rw [hreader]
    obtain ⟨k, buf, rest₀, rfl, hpc₀, hk, ⟨T, i, hT, hout, hopen⟩, -⟩ |
      ⟨k, rest₀, rfl, hpc₀, -, -⟩ := h.comes_to_pipe hpc
    · obtain rfl := Option.some.inj hT
      obtain rfl : SockId.outsocket = i := Option.some.inj hout
      exact (ha buf rest₀ hpc₀ hk hopen).2
    · exact hs.ends rest₀ hpc₀

/-- A step of another worker. -/
theorem Forwards.other (hs : Forwards cap s) (hw : w ≠ .clientToServer)
    (h : s.Trans true cap w c t)
    (hquits : w = .pipeToSock ∨ w = .fromReplica → ¬ s.Quits true w c)
    (hraises : w = .pipeToSock → s.Raises true w c → ∀ rest, s.pc .clientToServer ≠ .pipe rest) :
    Forwards cap t := by
  have hwriter : t.pc .clientToServer = s.pc .clientToServer := h.pc_of_ne hw.symm
  refine ⟨fun w' hw' => hs.kills_of_trans h hquits hw', fun rest hpc => ?_, fun rest hpc => ?_⟩
  · exact Nat.lt_of_le_of_lt (h.pipe_length_le hw) (hs.blocks rest (hwriter ▸ hpc))
  · have hpc₀ := hwriter ▸ hpc
    by_cases hw₃ : .pipeToSock = w
    · subst hw₃
      intro hreturned
      obtain ⟨hq, -⟩ | ⟨hr, -⟩ | ⟨ops, hkill⟩ := h.leaves (by rw [hreturned]; rfl)
      · exact hquits (Or.inl rfl) hq
      · exact hraises rfl hr rest hpc₀
      · exact hs.kills _ (Or.inl rfl) _ hkill
    · rw [h.pc_of_ne hw₃]
      exact hs.ends rest hpc₀

/-- **A harmless step.** -/
theorem Isolated.step (hs : Isolated cap s) (ha : Harmless cap s a)
    (h : (session true cap).step s a = some t) : Isolated cap t := by
  by_cases hover : s.Over
  · exact Or.inl (hover.step h)
  have hs := hs.resolve_left hover
  refine Or.inr ?_
  cases a with
  | peer i e =>
    obtain ⟨x, -, -, -, rfl⟩ := step_peer h
    exact ⟨hs.kills, hs.blocks, hs.ends⟩
  | start =>
    obtain ⟨w, ws, -, rfl⟩ := step_start h
    have hpc {w' : Worker} {pc : Pc} (hne : pc ≠ .loop) (hw' : (s.goto w .loop).pc w' = pc) :
        s.pc w' = pc := by
      by_cases hw : w' = w
      · subst hw
        exact absurd (by simpa using hw'.symm) hne
      · rwa [State.goto_pc_of_ne s _ hw] at hw'
    exact ⟨fun w' hw' ops h => hs.kills w' hw' ops (hpc (by simp) h),
      fun rest h => hs.blocks rest (hpc (by simp) h),
      fun rest h₁ h₂ => hs.ends rest (hpc (by simp) h₁) (hpc (by simp) h₂)⟩
  | work w c =>
    have htrans := State.trans_of_work h
    cases w with
    | clientToServer => exact hs.writer hover ha htrans
    | serverToClient => exact hs.other (by simp) htrans (by simp) (by simp)
    | pipeToSock =>
      have ha := ha.resolve_left hover
      exact hs.other (by simp) htrans (fun _ => ha.1) fun _ => ha.2
    | fromReplica =>
      have ha := ha.resolve_left hover
      exact hs.other (by simp) htrans (fun _ => ha) (by simp)

/-- **Any other step.** -/
theorem not_isolated_of_step (ha : ¬ Harmless cap s a)
    (h : (session true cap).step s a = some t) : ¬ Isolated cap t := by
  obtain ⟨hover, ha⟩ := not_or.mp ha
  cases a with
  | peer => exact absurd trivial ha
  | start => exact absurd trivial ha
  | work w c =>
    cases w with
    | clientToServer =>
      cases c with
      | run k =>
        simp only [not_forall] at ha
        obtain ⟨buf, rest, hpc, hk, hopen, hblocked⟩ := ha
        change s.work true cap .clientToServer (.run k) = some t at h
        simp only [State.work, task, if_true, Option.bind_some, hpc, communicateToServerAndPipe,
          State.writeSock, hopen, Bool.false_eq_true, if_false, hk, List.drop_length,
          Task.afterWrite] at h
        split_ifs at h with hlen
        cases h
        refine fun hs => hblocked ?_
        have hforwards := hs.resolve_left fun hover' => (by simpa [hopen] using hover'.1)
        exact ⟨hforwards.blocks buf (State.goto_pc_self ..),
          hforwards.ends buf (State.goto_pc_self ..)⟩
      | put k =>
        simp only [not_forall] at ha
        obtain ⟨rest, hpc, hk, hfull⟩ := ha
        change s.work true cap .clientToServer (.put k) = some t at h
        simp only [State.work, task, if_true, Option.bind_some, hpc, communicateToServerAndPipe,
          State.writePipe] at h
        have hrest : rest.drop k ≠ [] := by
          intro hnil
          have hlen := congrArg List.length hnil
          simp only [List.length_drop, List.length_nil] at hlen
          omega
        split_ifs at h with hroom
        cases h
        refine fun hs => hfull ?_
        have hblocks := (hs.resolve_left hover).blocks (rest.drop k) (State.goto_pc_self ..)
        simp only [State.goto_pipe, List.length_append, List.length_take] at hblocks
        omega
      | timeout => exact absurd trivial ha
      | fail => exact absurd trivial ha
    | serverToClient => exact absurd trivial ha
    | pipeToSock =>
      rcases not_and_or.mp ha with hq | hr
      · obtain rfl := (not_not.mp hq).eq_quit h
        exact fun hs => (hs.resolve_left hover).kills _ (Or.inl rfl) _ (State.quit_pc_self ..)
      · obtain ⟨hr, hpipe⟩ := Classical.not_imp.mp hr
        simp only [not_forall, not_not] at hpipe
        obtain ⟨rest, hpc⟩ := hpipe
        obtain rfl := hr.eq_raise h
        refine fun hs => (hs.resolve_left hover).ends rest ?_ (State.raise_pc_self ..)
        rw [State.raise_pc_of_ne _ (by simp), hpc]
    | fromReplica =>
      obtain rfl := (not_not.mp ha).eq_quit h
      exact fun hs => (hs.resolve_left hover).kills _ (Or.inr rfl) _ (State.quit_pc_self ..)

end Condition

/-! ### Two runs -/

/-- A worker of the client and the server. -/
def Worker.Serves (w : Worker) : Prop := w = .clientToServer ∨ w = .serverToClient

/-- Where a worker is, as the client and the server see it: in `pos.write` it does nothing for
them. -/
def Pc.served : Pc → Pc
  | .pipe _ => .loop
  | pc => pc

/-- Only a worker in `pos.write` looks as if it were elsewhere. -/
theorem Pc.eq_of_served {pc pc' : Pc} (h : pc.served = pc'.served) (hne : pc.served ≠ .loop) :
    pc' = pc := by
  cases pc <;> cases pc' <;> simp_all [served]

/-- Two states agree on the side of the client and the server. -/
structure Agree (s u : State) : Prop where
  sock : ∀ i, i ≠ .replicaSocket → s.sock i = u.sock i
  pc : ∀ w, w.Serves → (s.pc w).served = (u.pc w).served
  isRunning : ∀ w, w.Serves → s.isRunning w = u.isRunning w
  starting : s.starting = u.starting

/-- What there is of a session on the side of the client and the server. -/
def State.view (s : State) : (Socket × Socket) × (Pc × Pc) × (Bool × Bool) × List Worker :=
  ((s.sock .insocket, s.sock .outsocket),
    ((s.pc .clientToServer).served, (s.pc .serverToClient).served),
    (s.isRunning .clientToServer, s.isRunning .serverToClient), s.starting)

theorem State.view_eq_iff {s u : State} : s.view = u.view ↔ Agree s u := by
  simp only [State.view, Prod.mk.injEq]
  constructor
  · rintro ⟨⟨hin, hout⟩, ⟨hpc₁, hpc₂⟩, ⟨hflag₁, hflag₂⟩, hstarting⟩
    refine ⟨fun i hi => ?_, fun w hw => ?_, fun w hw => ?_, hstarting⟩
    · cases i with
      | outsocket => exact hout
      | insocket => exact hin
      | replicaSocket => exact absurd rfl hi
    · obtain rfl | rfl := hw
      · exact hpc₁
      · exact hpc₂
    · obtain rfl | rfl := hw
      · exact hflag₁
      · exact hflag₂
  · intro h
    exact ⟨⟨h.sock _ (by simp), h.sock _ (by simp)⟩, ⟨h.pc _ (Or.inl rfl), h.pc _ (Or.inr rfl)⟩,
      ⟨h.isRunning _ (Or.inl rfl), h.isRunning _ (Or.inr rfl)⟩, h.starting⟩

namespace Agree

variable {cap : ℕ} {s t u v : State} {w : Worker} {c : Choice}

theorem goto (hs : Agree s u) (w : Worker) {pc pc' : Pc} (hpc : pc.served = pc'.served) :
    Agree (s.goto w pc) (u.goto w pc') := by
  refine ⟨hs.sock, fun w' hw' => ?_, hs.isRunning, hs.starting⟩
  by_cases hw : w' = w
  · subst hw
    simpa using hpc
  · rw [State.goto_pc_of_ne s _ hw, State.goto_pc_of_ne u _ hw, hs.pc w' hw']

theorem setSock (hs : Agree s u) {i : SockId} {x x' : Socket}
    (hx : i = .replicaSocket ∨ x = x') : Agree (s.setSock i x) (u.setSock i x') := by
  refine ⟨fun j hj => ?_, hs.pc, hs.isRunning, hs.starting⟩
  by_cases hji : j = i
  · subst hji
    simpa using hx.resolve_left hj
  · rw [State.setSock_sock_of_ne s x hji, State.setSock_sock_of_ne u x' hji, hs.sock j hj]

theorem setRunning (hs : Agree s u) (w : Worker) (b : Bool) :
    Agree { s with isRunning := Function.update s.isRunning w b }
      { u with isRunning := Function.update u.isRunning w b } := by
  refine ⟨hs.sock, hs.pc, fun w' hw' => ?_, hs.starting⟩
  by_cases hw : w' = w
  · subst hw
    simp
  · simp only [Function.update_of_ne hw, hs.isRunning w' hw']

theorem quit (hs : Agree s u) (w : Worker) : Agree (s.quit true w) (u.quit true w) :=
  hs.goto w rfl

theorem raise (hs : Agree s u) (w : Worker) : Agree (s.raise w) (u.raise w) :=
  (hs.goto w rfl).setRunning w false

/-- A read from the client or the server. -/
theorem readSock (hs : Agree s u) {T : Task} {i : SockId} (hi : i ≠ .replicaSocket)
    (h : s.readSock true T w i c = some t) (h' : u.readSock true T w i c = some v) :
    Agree t v := by
  have hsock := hs.sock i hi
  cases c with
  | run k =>
    simp only [State.readSock, hsock] at h h'
    split_ifs at h h' <;> cases h <;> cases h'
    · exact hs.raise w
    · exact hs.quit w
    · exact (hs.setSock (Or.inr rfl)).goto w rfl
  | timeout =>
    simp only [State.readSock, hsock] at h h'
    split_ifs at h h'
    cases h
    cases h'
    exact hs.quit w
  | fail =>
    cases h
    cases h'
    exact hs.raise w
  | put k => cases h

/-- A write to the client or the server. -/
theorem writeSock (hs : Agree s u) {T : Task} {i : SockId} {buf rest : List Byte}
    (hi : i ≠ .replicaSocket) (h : s.writeSock true T w i buf rest c = some t)
    (h' : u.writeSock true T w i buf rest c = some v) : Agree t v := by
  have hsock := hs.sock i hi
  cases c with
  | run k =>
    simp only [State.writeSock, hsock] at h h'
    split_ifs at h h' <;> cases h <;> cases h'
    · exact hs.raise w
    · exact (hs.setSock (Or.inr rfl)).goto w rfl
    · exact (hs.setSock (Or.inr rfl)).goto w rfl
  | timeout =>
    simp only [State.writeSock, hsock] at h h'
    split_ifs at h h'
    cases h
    cases h'
    exact hs.quit w
  | fail =>
    cases h
    cases h'
    exact hs.raise w
  | put k => cases h

/-- A statement of `register.kill()`. -/
theorem killStep (hs : Agree s u) {ops : List KillOp} (h : s.killStep w ops c = some t)
    (h' : u.killStep w ops c = some v) : Agree t v := by
  cases ops with
  | nil =>
    cases c with
    | run k =>
      cases h
      cases h'
      exact hs.goto w rfl
    | _ => cases h
  | cons o ops =>
    cases o with
    | stop =>
      cases c with
      | run k =>
        cases h
        cases h'
        exact (hs.setRunning _ _).goto w rfl
      | _ => cases h
    | close i =>
      cases c with
      | run k =>
        cases h
        cases h'
        refine (hs.setSock ?_).goto w rfl
        by_cases hi : i = .replicaSocket
        · exact Or.inl hi
        · exact Or.inr (by rw [hs.sock i hi])
      | fail =>
        simp only [State.killStep] at h h'
        split_ifs at h h'
        cases h
        cases h'
        exact hs.goto w rfl
      | _ => cases h

/-- A `pos.write` that puts nothing fails. -/
theorem writePipe (hs : Agree s u) {rest rest' : List Byte} (hc : ∀ k, c ≠ .put k)
    (h : s.writePipe cap w rest c = some t) (h' : u.writePipe cap w rest' c = some v) :
    Agree t v := by
  cases c with
  | fail =>
    simp only [State.writePipe] at h h'
    split_ifs at h h'
    cases h
    cases h'
    exact hs.raise w
  | put k => exact absurd rfl (hc k)
  | _ => cases h

/-- **A step on the side of the client and the server.** -/
theorem work (hs : Agree s u) (hw : w.Serves) (hc : ∀ k, c ≠ .put k)
    (h : s.work true cap w c = some t) (h' : u.work true cap w c = some v) : Agree t v := by
  obtain ⟨T, hT, h⟩ := Option.bind_eq_some_iff.mp h
  obtain ⟨T', hT', h'⟩ := Option.bind_eq_some_iff.mp h'
  obtain rfl := Option.some.inj (hT.symm.trans hT')
  obtain ⟨i, j, hsrc, hout, hi, hj⟩ : ∃ i j, T.source = .sock i ∧ T.out = some j ∧
      i ≠ .replicaSocket ∧ j ≠ .replicaSocket := by
    obtain rfl | rfl := hw
    all_goals
      obtain rfl := Option.some.inj hT
      exact ⟨_, _, rfl, rfl, by simp, by simp⟩
  have hpcs := hs.pc w hw
  have hflag := hs.isRunning w hw
  -- only a worker that is in `pos.write` need not be in the same place in both states
  cases hpc : s.pc w with
  | unstarted => simp [hpc] at h
  | returned => simp [hpc] at h
  | loop =>
    cases hpc' : u.pc w with
    | loop =>
      simp only [hpc] at h
      simp only [hpc', ← hflag] at h'
      cases c with
      | run k =>
        split_ifs at h h' <;> cases h <;> cases h'
        · exact hs.goto w rfl
        · exact hs.quit w
      | _ => cases h
    | pipe rest =>
      simp only [hpc] at h
      simp only [hpc'] at h'
      cases c with
      | run k => cases hpos : T.pos <;> simp [hpos, State.writePipe] at h'
      | _ => cases h
    | _ => simp [hpc, hpc', Pc.served] at hpcs
  | pipe rest =>
    cases hpc' : u.pc w with
    | loop =>
      simp only [hpc] at h
      simp only [hpc'] at h'
      cases c with
      | run k => cases hpos : T.pos <;> simp [hpos, State.writePipe] at h
      | _ => cases h'
    | pipe rest' =>
      simp only [hpc] at h
      simp only [hpc'] at h'
      split_ifs at h h'
      exact hs.writePipe hc h h'
    | _ => simp [hpc, hpc', Pc.served] at hpcs
  | read =>
    have hpc' : u.pc w = .read := hpc ▸ Pc.eq_of_served hpcs (by simp [hpc, Pc.served])
    simp only [hpc, hsrc] at h
    simp only [hpc', hsrc] at h'
    exact hs.readSock hi h h'
  | write buf rest =>
    have hpc' : u.pc w = .write buf rest :=
      hpc ▸ Pc.eq_of_served hpcs (by simp [hpc, Pc.served])
    simp only [hpc, hout] at h
    simp only [hpc', hout] at h'
    exact hs.writeSock hj h h'
  | kill ops =>
    have hpc' : u.pc w = .kill ops := hpc ▸ Pc.eq_of_served hpcs (by simp [hpc, Pc.served])
    simp only [hpc] at h
    simp only [hpc'] at h'
    exact hs.killStep h h'

/-- A step of a worker of the replica, while the replica is not in the way. -/
theorem of_trans (hclosing : Closing true s) (hs : Isolated cap s)
    (hw : w = .pipeToSock ∨ w = .fromReplica) (h : s.Trans true cap w c t) : Agree t s := by
  have hne {w' : Worker} (hw' : w'.Serves) : w' ≠ w := by
    obtain rfl | rfl := hw' <;> obtain rfl | rfl := hw <;> simp
  refine ⟨fun i hi => ?_, fun w' hw' => by rw [h.pc_of_ne (hne hw')], fun w' hw' => ?_,
    h.starting⟩
  · cases h with
    | @recv T j k hT hpc hsrc =>
      have hj : j = .replicaSocket := by
        obtain rfl | rfl := hw <;> obtain rfl := Option.some.inj hT
        · cases hsrc
        · exact (Source.sock.inj hsrc).symm
      exact State.setSock_sock_of_ne s _ (hj ▸ hi)
    | @send T j k buf rest hT hpc hout =>
      have hj : j = .replicaSocket := by
        obtain rfl | rfl := hw <;> obtain rfl := Option.some.inj hT
        · exact (Option.some.inj hout).symm
        · cases hout
      exact State.setSock_sock_of_ne s _ (hj ▸ hi)
    | @close k j ops hpc =>
      rcases hs with hover | hforwards
      · by_cases hij : i = j
        · subst hij
          have hclosed : (s.sock i).closed = true := by
            cases i with
            | outsocket => exact hover.1
            | insocket => exact hover.2
            | replicaSocket => exact absurd rfl hi
          rw [State.goto_sock, State.setSock_sock_self, ← hclosed]
        · exact State.setSock_sock_of_ne s _ hij
      · exact absurd hpc (hforwards.kills w hw _)
    | _ => rfl
  · cases h with
    | raise => exact Function.update_of_ne (hne hw') _ _
    | stop hpc => exact absurd hpc (hclosing.not_stop _)
    | _ => rfl

end Agree

/-- What the label of a visible step is. -/
theorem forwarded_eq_some {a b : Act} (h : forwarded a = some b) : a = b ∧
    ((∃ i e, a = .peer i e ∧ i ≠ .replicaSocket) ∨ a = .start ∨
      ∃ w c, a = .work w c ∧ w.Serves ∧ ∀ k, c ≠ .put k) := by
  unfold forwarded at h
  split at h
  · cases h
  · cases h
  · cases h
  · cases h
  · next h₁ h₂ h₃ h₄ =>
    refine ⟨Option.some.inj h, ?_⟩
    cases a with
    | peer i e => exact Or.inl ⟨i, e, rfl, fun hi => h₁ e (hi ▸ rfl)⟩
    | start => exact Or.inr (Or.inl rfl)
    | work w c =>
      refine Or.inr (Or.inr ⟨w, c, rfl, ?_, ?_⟩)
      · cases w with
        | clientToServer => exact Or.inl rfl
        | serverToClient => exact Or.inr rfl
        | pipeToSock => exact absurd rfl (h₃ c)
        | fromReplica => exact absurd rfl (h₄ c)
      · exact fun k hk => h₂ w k (hk ▸ rfl)

section Unwinding

variable {cap : ℕ} {s t u v : State} {a : Act}

/-- A step on the side of the replica. -/
theorem agree_of_hidden (hclosing : Closing true s) (hs : Isolated cap s)
    (ha : forwarded a = none) (h : (session true cap).step s a = some t) : Agree t s := by
  cases a with
  | peer i e =>
    cases i with
    | replicaSocket =>
      obtain ⟨x, -, -, -, rfl⟩ := step_peer h
      exact ⟨fun i hi => State.setSock_sock_of_ne s x hi, fun _ _ => rfl, fun _ _ => rfl, rfl⟩
    | _ => cases ha
  | start => cases ha
  | work w c =>
    have htrans := State.trans_of_work h
    have hserves (hw : w.Serves) : ∃ k, c = .put k := by
      obtain rfl | rfl := hw <;> cases c <;> first
        | exact ⟨_, rfl⟩
        | cases ha
    by_cases hw : w.Serves
    · obtain ⟨k, rfl⟩ := hserves hw
      cases htrans with
      | @put T k rest hT hpc =>
        refine ⟨fun _ _ => rfl, fun w' hw' => ?_, fun _ _ => rfl, rfl⟩
        by_cases hne : w' = w
        · subst hne
          rw [State.goto_pc_self, hpc]
          split_ifs <;> rfl
        · rw [State.goto_pc_of_ne _ _ hne]
      | quit hq => cases hq
      | raise hr => cases hr
    · refine .of_trans hclosing hs ?_ htrans
      cases w with
      | clientToServer => exact absurd (Or.inl rfl) hw
      | serverToClient => exact absurd (Or.inr rfl) hw
      | pipeToSock => exact Or.inl rfl
      | fromReplica => exact Or.inr rfl

/-- A step on the side of the client and the server, in two states that agree there. -/
theorem agree_of_forwarded (hs : Agree s u) {b : Act} (ha : forwarded a = some b)
    (h : (session true cap).step s a = some t) (h' : (session true cap).step u a = some v) :
    Agree t v := by
  obtain ⟨-, ⟨i, e, rfl, hi⟩ | rfl | ⟨w, c, rfl, hw, hc⟩⟩ := forwarded_eq_some ha
  · obtain ⟨x, hx, -, -, rfl⟩ := step_peer h
    obtain ⟨y, hy, -, -, rfl⟩ := step_peer h'
    rw [hs.sock i hi] at hx
    exact hs.setSock (Or.inr (Option.some.inj (hx.symm.trans hy)))
  · obtain ⟨w, ws, hstarting, rfl⟩ := step_start h
    obtain ⟨w', ws', hstarting', rfl⟩ := step_start h'
    obtain ⟨rfl, rfl⟩ := List.cons.inj ((hstarting.symm.trans hs.starting).trans hstarting')
    have hgoto : Agree (s.goto w .loop) (u.goto w .loop) := hs.goto w rfl
    exact ⟨hgoto.sock, hgoto.pc, hgoto.isRunning, rfl⟩
  · exact hs.work hw hc h h'

/-- **Unwinding.** Under the condition the replica does not show on the side of the client and the
server. -/
theorem unwinding [∀ s a, Decidable (Harmless cap s a)] :
    Machine.Unwinding ((session true cap).restrict (Harmless cap))
      (fun s => Closing true s ∧ Isolated cap s) forwarded State.view where
  inv hs h := by
    obtain ⟨ha, h⟩ := Machine.restrict_step.mp h
    exact ⟨hs.1.step h, hs.2.step ha h⟩
  hidden hs ha h := by
    obtain ⟨-, h⟩ := Machine.restrict_step.mp h
    exact State.view_eq_iff.mpr (agree_of_hidden hs.1 hs.2 ha h)
  visible hs hu hsu ha hb h h' := by
    obtain ⟨-, h⟩ := Machine.restrict_step.mp h
    obtain ⟨-, h'⟩ := Machine.restrict_step.mp h'
    obtain rfl := (forwarded_eq_some ha).1
    obtain rfl := (forwarded_eq_some hb).1
    exact State.view_eq_iff.mpr (agree_of_forwarded (State.view_eq_iff.mp hsu) ha h h')

end Unwinding

/-- **Isolation from the replica.** Let two runs of a duplicating session agree on what the client
and the server do and on the steps of the two workers that serve them. The steps of both runs are
harmless if and only if the replica is never in the way of the client and the server and the bytes
that these have been sent are the same in both runs. -/
theorem replica_isolation_iff {cap : ℕ} {as bs : List Act} {s t : State}
    (hrun : (session true cap).run (registered true) as = some s)
    (hrun' : (session true cap).run (registered true) bs = some t)
    (hsame : as.filterMap forwarded = bs.filterMap forwarded) :
    (session true cap).Along (Harmless cap) (registered true) as ∧
        (session true cap).Along (Harmless cap) (registered true) bs ↔
      (session true cap).Throughout (Isolated cap) (registered true) as ∧
        (session true cap).Throughout (Isolated cap) (registered true) bs ∧
        s.toServer = t.toServer ∧ s.toClient = t.toClient := by
  classical
  have hinit : Closing true (registered true) ∧ Isolated cap (registered true) := by
    refine ⟨.registered true, Or.inr ⟨fun w hw ops h => ?_, fun rest h => ?_, fun rest h => ?_⟩⟩
    all_goals cases h
  have hexact (cs : List Act) : (session true cap).Along (Harmless cap) (registered true) cs ↔
      (session true cap).Throughout (Isolated cap) (registered true) cs := by
    refine Machine.along_iff_throughout (H := fun _ _ => True)
      (I := fun s => Closing true s ∧ Isolated cap s) ?_ (fun s hs => hs.2) ?_ hinit
      (Machine.along_true _ _)
    · exact fun s a t hs _ ha h => ⟨hs.1.step h, hs.2.step ha h⟩
    · exact fun s a t _ _ ha h => not_isolated_of_step ha h
  refine ⟨fun h => ?_, fun h => ⟨(hexact as).mpr h.1, (hexact bs).mpr h.2.1⟩⟩
  have hview := unwinding.two_run hinit hinit rfl (Machine.run_restrict h.1 hrun)
    (Machine.run_restrict h.2 hrun') hsame
  have hsock := (State.view_eq_iff.mp hview).sock
  refine ⟨(hexact as).mp h.1, (hexact bs).mp h.2, ?_, ?_⟩
  · exact congrArg Socket.sent (hsock .outsocket (by simp))
  · exact congrArg Socket.sent (hsock .insocket (by simp))

/-- A request of one byte has been read from the client. -/
def requested : List Act :=
  [.start, .start, .start, .start, .peer .insocket (.deliver [1]),
    .work .clientToServer (.run 0), .work .clientToServer (.run 1)]

/-- The request goes to the server, and the answer of the server to the client. -/
def answered : List Act :=
  [.peer .outsocket (.deliver [2]), .work .serverToClient (.run 0),
    .work .serverToClient (.run 1), .work .serverToClient (.run 1)]

/-- The request goes to the server and by way of the pipe to the replica. -/
def withReplica : List Act :=
  requested ++ [.work .clientToServer (.run 1), .work .clientToServer (.put 1),
    .work .pipeToSock (.run 0), .work .pipeToSock (.run 1), .work .pipeToSock (.run 1)] ++ answered

/-- The request goes to the server only. -/
def withoutReplica : List Act := requested ++ [.work .clientToServer (.run 1)] ++ answered

theorem replica_isolation_iff_answered :
    ∃ s t, (session true pipeSize).run (registered true) withReplica = some s ∧
      (session true pipeSize).run (registered true) withoutReplica = some t ∧
      s.toReplica = [1] ∧ t.toReplica = [] ∧
      ((session true pipeSize).Along (Harmless pipeSize) (registered true) withReplica ∧
          (session true pipeSize).Along (Harmless pipeSize) (registered true) withoutReplica ↔
        (session true pipeSize).Throughout (Isolated pipeSize) (registered true) withReplica ∧
          (session true pipeSize).Throughout (Isolated pipeSize) (registered true)
            withoutReplica ∧
          s.toServer = t.toServer ∧ s.toClient = t.toClient) := by
  have hwith : ((session true pipeSize).run (registered true) withReplica).map
      State.toReplica = some [1] := by decide
  have hwithout : ((session true pipeSize).run (registered true) withoutReplica).map
      State.toReplica = some [] := by decide
  obtain ⟨s, hrun, hs⟩ := Option.map_eq_some_iff.mp hwith
  obtain ⟨t, hrun', ht⟩ := Option.map_eq_some_iff.mp hwithout
  exact ⟨s, t, hrun, hrun', hs, ht, replica_isolation_iff hrun hrun' (by decide)⟩

/-- The replica ends its stream before the request is written to the server. -/
def replicaEnds : List Act :=
  requested ++ [.peer .replicaSocket .fin, .work .fromReplica (.run 0),
    .work .fromReplica (.run 0), .work .fromReplica (.run 0), .work .clientToServer (.run 1)]

/-- The replica does nothing. -/
def replicaIdles : List Act := requested ++ [.work .clientToServer (.run 1)]

theorem replica_isolation_fails : ¬ ∀ (as bs : List Act) (s t : State),
    (session true pipeSize).run (registered true) as = some s →
      (session true pipeSize).run (registered true) bs = some t →
        as.filterMap forwarded = bs.filterMap forwarded →
          s.toServer = t.toServer ∧ s.toClient = t.toClient := by
  intro hall
  have hends : ((session true pipeSize).run (registered true) replicaEnds).map
      State.toServer = some [] := by decide
  have hidles : ((session true pipeSize).run (registered true) replicaIdles).map
      State.toServer = some [1] := by decide
  obtain ⟨s, hrun, hs⟩ := Option.map_eq_some_iff.mp hends
  obtain ⟨t, hrun', ht⟩ := Option.map_eq_some_iff.mp hidles
  have hsame := (hall _ _ s t hrun hrun' (by decide)).1
  simp [hs, ht] at hsame

end Parikshan.JavaProxy
