import Parikshan.JavaProxy.CleanClose

/-!
# What the client and the server receive

Between the client and the server a session is a relay in both directions, whether it duplicates or
not. Each direction has one worker, which alone reads from the one socket and alone writes to the
other, and while it is in its loop nothing is lost: what it has written, what it has in hand of the
current chunk and what has arrived and not been read are what the peer has sent. A worker whose
calls succeed, and whose session is not ended by another worker, leaves its loop at the end of the
stream and has passed on all of it by then.

## Main definitions

* `Direction`: the two directions, with their workers and sockets.
* `delivered`: what a peer has sent.
* `Relayed`: the invariant.
* `Calm`: the condition on the calls of a worker, and on the other workers.

## Main results

* `session_relayed`: in each direction a prefix arrives, and nothing is lost on the way.
* `session_complete`: in a calm run a stream has ended, and all of it has been written, when its
  worker leaves its loop.
-/

namespace Parikshan.JavaProxy

/-- The two directions of a session. -/
inductive Direction
  | request
  | response
  deriving DecidableEq, Repr

namespace Direction

def worker : Direction → Worker
  | request => .clientToServer
  | response => .serverToClient

def input : Direction → SockId
  | request => .insocket
  | response => .outsocket

def output : Direction → SockId
  | request => .outsocket
  | response => .insocket

end Direction

/-- The bytes that a peer sends in a step. -/
def Act.bytes (i : SockId) : Act → List Byte
  | .peer j (.deliver bs) => if j = i then bs else []
  | _ => []

/-- What the peer of a socket has sent. -/
def delivered (i : SockId) (as : List Act) : List Byte := as.flatMap (Act.bytes i)

theorem delivered_concat (i : SockId) (as : List Act) (a : Act) :
    delivered i (as ++ [a]) = delivered i as ++ a.bytes i := by
  simp [delivered]

section Tasks

variable {duplicate : Bool} {w : Worker} {T : Task} {d : Direction}

/-- A worker reads from the one socket and writes to the other. -/
theorem task_direction (hT : task duplicate d.worker = some T) :
    T.source = .sock d.input ∧ T.out = some d.output := by
  cases d <;> cases duplicate <;> obtain rfl := Option.some.inj hT <;> exact ⟨rfl, rfl⟩

/-- No other worker does. -/
theorem task_of_ne_direction (hT : task duplicate w = some T) (hw : w ≠ d.worker) :
    T.source ≠ .sock d.input ∧ T.out ≠ some d.output := by
  cases d <;> cases duplicate <;> cases w <;>
    first
    | exact absurd rfl hw
    | (cases hT; exact ⟨nofun, nofun⟩)
    | cases hT

end Tasks

namespace State

variable (s : State) (d : Direction)

/-- What has been written in a direction. -/
def written : List Byte := (s.sock d.output).sent

/-- What has been written, what the worker has in hand, and what has not been read. -/
def passed : List Byte := s.written d ++ (s.pc d.worker).unsent ++ (s.sock d.input).inbox

end State

/-! ### Steps -/

section Steps

variable {duplicate : Bool} {cap : ℕ} {s t : State} {w : Worker} {c : Choice} {d : Direction}
  {a : Act}

/-- A socket is read by the worker whose task it is. -/
theorem State.Trans.inbox_eq (h : s.Trans duplicate cap w c t) {i : SockId}
    (hi : ∀ T, task duplicate w = some T → T.source ≠ .sock i) :
    (t.sock i).inbox = (s.sock i).inbox := by
  cases h with
  | @recv T j k hT hpc hsrc =>
    have hij : i ≠ j := by
      rintro rfl
      exact hi T hT hsrc
    rw [State.goto_sock, State.setSock_sock_of_ne s _ hij]
  | send => exact s.setSock_sock_eq Socket.inbox (by rfl) i
  | close => exact s.setSock_sock_eq Socket.inbox (by rfl) i
  | _ => rfl

/-- A worker that moves no bytes of a direction. -/
theorem passed_of_ne (h : s.Trans duplicate cap w c t) (hw : w ≠ d.worker) :
    t.passed d = s.passed d := by
  have hsent : t.written d = s.written d := h.sent_eq fun T hT => (task_of_ne_direction hT hw).2
  have hinbox := h.inbox_eq fun T hT => (task_of_ne_direction hT hw).1
  rw [State.passed, State.passed, hsent, hinbox, h.pc_of_ne (Ne.symm hw)]

/-- The worker of a direction loses nothing while it is in its loop. -/
theorem passed_worker (h : s.Trans duplicate cap d.worker c t)
    (hin : (t.pc d.worker).inLoop = true) : t.passed d = s.passed d := by
  have hio : d.input ≠ d.output := by cases d <;> decide
  cases h with
  | read hpc hflag => simp [State.passed, State.written, hpc, Pc.unsent]
  | @recv T i k hT hpc hsrc =>
    obtain ⟨hinput, hout⟩ := task_direction hT
    obtain rfl : i = d.input := Source.sock.inj (hsrc.symm.trans hinput)
    simp [State.passed, State.written, hpc, hout, Task.afterRead, Pc.unsent,
      State.setSock_sock_of_ne s _ (Ne.symm hio)]
  | take hT hpc hsrc =>
    cases hsrc.symm.trans (task_direction hT).1
  | @send T i k buf rest hT hpc hout =>
    obtain rfl : i = d.output := Option.some.inj (hout.symm.trans (task_direction hT).2)
    have hrest := Task.unsent_afterWrite T buf rest k
    simp only [State.passed, State.written, State.goto_sock, State.setSock_sock_self,
      State.goto_pc_self, State.setSock_sock_of_ne s _ hio, hpc, List.append_assoc]
    rw [← List.append_assoc (rest.take k), hrest]
    rfl
  | @put T k rest hT hpc =>
    have hunsent : (if rest.drop k = [] then Pc.loop else .pipe (rest.drop k)).unsent = [] := by
      split_ifs <;> rfl
    simp only [State.passed, State.written, State.goto_sock, State.goto_pc_self, hunsent, hpc]
    rfl
  | _ => simp [Pc.inLoop] at hin

/-- What a peer does, and the start of a thread. -/
theorem passed_of_other (hfresh : Fresh duplicate s) (ha : ∀ w c, a ≠ .work w c)
    (h : (session duplicate cap).step s a = some t) :
    t.passed d = s.passed d ++ a.bytes d.input ∧ t.written d = s.written d ∧
      (t.pc d.worker).inLoop = (s.pc d.worker).inLoop := by
  cases a with
  | peer i e =>
    obtain ⟨x, hx, -, hsent, rfl⟩ := step_peer h
    refine ⟨?_, hsent _, rfl⟩
    have hinbox : ((s.setSock i x).sock d.input).inbox =
        (s.sock d.input).inbox ++ (Act.peer i e).bytes d.input := by
      cases e <;> simp only [Socket.peer] at hx <;> split_ifs at hx <;> cases hx
      · by_cases hi : d.input = i
        · simp [hi, Act.bytes]
        · simp [Act.bytes, State.setSock_sock_of_ne s _ hi, Ne.symm hi]
      · rw [s.setSock_sock_eq Socket.inbox (by rfl)]
        simp [Act.bytes]
    simp only [State.passed, State.written, hsent, hinbox, State.setSock_pc, List.append_assoc]
  | start =>
    obtain ⟨w, ws, hstarting, rfl⟩ := step_start h
    have hpc : s.pc w = .unstarted := ((hfresh.mem_iff w).mp (hstarting ▸ List.mem_cons_self)).2
    by_cases hw : d.worker = w
    · subst hw
      simp [State.passed, State.written, hpc, Pc.unsent, Pc.inLoop, Act.bytes]
    · simp [State.passed, State.written, State.goto_pc_of_ne s _ hw, Act.bytes]
  | work w c => exact absurd rfl (ha w c)

/-- **A step loses nothing** of a direction whose worker is in its loop. -/
theorem passed_step (hfresh : Fresh duplicate s) (h : (session duplicate cap).step s a = some t)
    (hin : (t.pc d.worker).inLoop = true) :
    t.passed d = s.passed d ++ a.bytes d.input ∧ (s.pc d.worker).inLoop = true := by
  by_cases ha : ∀ w c, a ≠ .work w c
  · obtain ⟨hpassed, -, hloop⟩ := passed_of_other (d := d) hfresh ha h
    exact ⟨hpassed, hloop ▸ hin⟩
  · simp only [ne_eq, not_forall, not_not] at ha
    obtain ⟨w, c, rfl⟩ := ha
    have htrans := State.trans_of_work h
    refine ⟨?_, htrans.inLoop hin⟩
    rw [show (Act.work w c).bytes d.input = [] from rfl, List.append_nil]
    by_cases hw : w = d.worker
    · subst hw
      exact passed_worker htrans hin
    · exact passed_of_ne htrans hw

/-- A worker that leaves its loop, or has left it, writes nothing. -/
theorem written_step (hfresh : Fresh duplicate s) (h : (session duplicate cap).step s a = some t)
    (hin : (t.pc d.worker).inLoop = false) : t.written d = s.written d := by
  by_cases ha : ∀ w c, a ≠ .work w c
  · exact (passed_of_other hfresh ha h).2.1
  · simp only [ne_eq, not_forall, not_not] at ha
    obtain ⟨w, c, rfl⟩ := ha
    have htrans := State.trans_of_work h
    by_cases hw : w = d.worker
    · subst hw
      exact (htrans.of_left hin).2 _
    · exact htrans.sent_eq fun T hT => (task_of_ne_direction hT hw).2

end Steps

/-! ### Both directions -/

/-- A direction is relayed. -/
structure Relayed (d : Direction) (as : List Act) (s : State) : Prop where
  sent : s.written d <+: delivered d.input as
  whole : (s.pc d.worker).inLoop = true → s.passed d = delivered d.input as

section Relayed

variable {duplicate : Bool} {cap : ℕ} {s t : State} {a : Act} {as : List Act} {d : Direction}

theorem Relayed.registered : Relayed d [] (registered duplicate) :=
  ⟨List.nil_prefix, fun _ => rfl⟩

/-- **Every step keeps the relay.** -/
theorem Relayed.step (hs : Relayed d as s) (hfresh : Fresh duplicate s)
    (h : (session duplicate cap).step s a = some t) : Relayed d (as ++ [a]) t := by
  have hwhole (hin : (t.pc d.worker).inLoop = true) :
      t.passed d = delivered d.input (as ++ [a]) := by
    obtain ⟨hpassed, hin'⟩ := passed_step hfresh h hin
    rw [hpassed, hs.whole hin', delivered_concat]
  refine ⟨?_, hwhole⟩
  by_cases hin : (t.pc d.worker).inLoop = true
  · rw [← hwhole hin, State.passed, List.append_assoc]
    exact List.prefix_append _ _
  · rw [written_step hfresh h (by simpa using hin), delivered_concat]
    exact hs.sent.trans (List.prefix_append _ _)

theorem relayed_of_run (hrun : (session duplicate cap).run (registered duplicate) as = some s) :
    Relayed d as s ∧ Fresh duplicate s :=
  Machine.labels_invariant_of_step (J := fun as s => Relayed d as s ∧ Fresh duplicate s)
    (fun _ _ _ _ hs h => ⟨hs.1.step hs.2 h, hs.2.step h⟩) ⟨.registered, .registered _⟩ hrun

/-- **A session is a relay.** In every reachable state of a session, duplicating or not, and in each
direction, what has been written to the one peer is a prefix of what the other one has sent, and
while the worker of the direction has not left its loop, what has been written, what the worker has
in hand of its chunk and what has arrived and not been read are all of it. -/
theorem session_relayed (hrun : (session duplicate cap).run (registered duplicate) as = some s)
    (d : Direction) :
    s.written d <+: delivered d.input as ∧ ((s.pc d.worker).inLoop = true →
      s.written d ++ (s.pc d.worker).unsent ++ (s.sock d.input).inbox = delivered d.input as) := by
  obtain ⟨hs, -⟩ := relayed_of_run hrun
  exact ⟨hs.sent, hs.whole⟩

/-! ### The end of a stream -/

/-- If the worker of a direction leaves its loop, all that its peer has sent has been read, its
stream has ended, and the worker has nothing in hand. -/
def LeavesAtEnd (duplicate : Bool) (d : Direction) (s : State) : Act → Prop
  | .work w c => w = d.worker →
    (s.Quits duplicate w c ∨ s.Raises duplicate w c) →
      s.pc w = .read ∧ (s.sock d.input).inbox = [] ∧ (s.sock d.input).fin = true
  | _ => True

/-- A direction with nothing left for it. -/
structure Complete (d : Direction) (as : List Act) (s : State) : Prop where
  sent : s.written d = delivered d.input as
  fin : (s.sock d.input).fin = true

/-- A peer that has ended its stream sends nothing, and does not take that back. -/
theorem fin_step {i : SockId} (h : (session duplicate cap).step s a = some t)
    (hfin : (s.sock i).fin = true) : (t.sock i).fin = true ∧ a.bytes i = [] := by
  cases a with
  | peer j e =>
    obtain ⟨x, hx, -, -, rfl⟩ := step_peer h
    by_cases hij : i = j
    · subst hij
      cases e <;> simp [Socket.peer, hfin] at hx
    · rw [State.setSock_sock_of_ne s x hij]
      exact ⟨hfin, by cases e <;> simp [Act.bytes, Ne.symm hij]⟩
  | start =>
    obtain ⟨w, ws, -, rfl⟩ := step_start h
    exact ⟨hfin, rfl⟩
  | work w c => exact ⟨((State.trans_of_work h).fin_eq i).trans hfin, rfl⟩

/-- A worker that has left its loop at the end of its stream. -/
theorem complete_step (hs : Relayed d as s) (hfresh : Fresh duplicate s)
    (hleft : (s.pc d.worker).inLoop = false → Complete d as s)
    (ha : LeavesAtEnd duplicate d s a) (h : (session duplicate cap).step s a = some t)
    (hin : (t.pc d.worker).inLoop = false) : Complete d (as ++ [a]) t := by
  have hwritten := written_step hfresh h hin
  have hdone (hc : Complete d as s) : Complete d (as ++ [a]) t := by
    obtain ⟨hfin, hbytes⟩ := fin_step h hc.fin
    exact ⟨by rw [hwritten, hc.sent, delivered_concat, hbytes, List.append_nil], hfin⟩
  by_cases hin' : (s.pc d.worker).inLoop = true
  · cases a with
    | work w c =>
      have htrans := State.trans_of_work h
      obtain rfl : w = d.worker := by
        by_contra hw
        rw [htrans.pc_of_ne (Ne.symm hw), hin'] at hin
        cases hin
      have hleaves : s.Quits duplicate d.worker c ∨ s.Raises duplicate d.worker c := by
        obtain ⟨hq, -⟩ | ⟨hr, -⟩ | ⟨ops, hpc⟩ := htrans.leaves hin
        · exact .inl hq
        · exact .inr hr
        · simp [hpc, Pc.inLoop] at hin'
      obtain ⟨hpc, hinbox, hfin⟩ := ha rfl hleaves
      have hwhole := hs.whole hin'
      simp only [State.passed, hpc, Pc.unsent, hinbox, List.append_nil] at hwhole
      exact hdone ⟨hwhole, hfin⟩
    | peer i e =>
      obtain ⟨-, -, hloop⟩ := passed_of_other (d := d) hfresh (by simp) h
      rw [hloop, hin'] at hin
      cases hin
    | start =>
      obtain ⟨-, -, hloop⟩ := passed_of_other (d := d) hfresh (by simp) h
      rw [hloop, hin'] at hin
      cases hin
  · exact hdone (hleft (by simpa using hin'))

/-- No call of the worker of a direction on an open socket or on the pipe fails or times out, and no
other worker calls `register.kill()` while this one is in its loop. -/
def Calm (duplicate : Bool) (d : Direction) (s : State) : Act → Prop
  | .work w c => (w = d.worker → c ≠ .fail ∧ c ≠ .timeout) ∧
    (w ≠ d.worker → (s.pc d.worker).inLoop = true → ¬ s.Quits duplicate w c)
  | _ => True

/-- Nobody is in `register.kill()` while the worker of a direction is in its loop. -/
def Unkilled (d : Direction) (s : State) : Prop :=
  (s.pc d.worker).inLoop = true → (∀ i, (s.sock i).closed = false) ∧
    s.isRunning d.worker = true ∧ ∀ w ops, s.pc w ≠ .kill ops

/-- A step of a worker in a calm run. -/
theorem Unkilled.work {w : Worker} {c : Choice} (hs : Unkilled d s)
    (ha : Calm duplicate d s (.work w c)) (h : s.Trans duplicate cap w c t) : Unkilled d t := by
  intro hin
  obtain ⟨hopen, hflag, hkill⟩ := hs (h.inLoop hin)
  refine ⟨fun i => ?_, ?_, fun w' ops hpc => ?_⟩
  · by_contra hclosed
    rcases (h.closed_iff i).mp (by simpa using hclosed) with hi | ⟨ops, hpc, -⟩
    · simp [hopen i] at hi
    · exact hkill w _ hpc
  · by_cases hw : d.worker = w
    · subst hw
      cases h with
      | raise => simp [Pc.inLoop] at hin
      | stop hpc => exact absurd hpc (hkill _ _)
      | _ => exact hflag
    · cases h with
      | raise => exact (Function.update_of_ne hw ..).trans hflag
      | stop hpc => exact absurd hpc (hkill _ _)
      | _ => exact hflag
  · by_cases hw : w' = w
    · subst hw
      obtain ⟨hq, -⟩ | ⟨-, rfl⟩ | ⟨ops', hpc'⟩ := h.leaves (by rw [hpc]; rfl)
      · by_cases hd : w' = d.worker
        · subst hd
          simp [hpc, Pc.inLoop] at hin
        · exact ha.2 hd (h.inLoop hin) hq
      · simp at hpc
      · exact hkill w' _ hpc'
    · exact hkill w' ops (h.pc_of_ne hw ▸ hpc)

theorem Unkilled.step (hs : Unkilled d s) (hfresh : Fresh duplicate s)
    (ha : Calm duplicate d s a) (h : (session duplicate cap).step s a = some t) :
    Unkilled d t := by
  cases a with
  | peer i e =>
    obtain ⟨-, -, hloop⟩ := passed_of_other (d := d) hfresh (by simp) h
    obtain ⟨x, -, hclosed, -, rfl⟩ := step_peer h
    intro hin
    obtain ⟨hopen, hflag, hkill⟩ := hs (hloop ▸ hin)
    exact ⟨fun j => (hclosed j).trans (hopen j), hflag, hkill⟩
  | start =>
    obtain ⟨-, -, hloop⟩ := passed_of_other (d := d) hfresh (by simp) h
    obtain ⟨w, ws, -, rfl⟩ := step_start h
    intro hin
    obtain ⟨hopen, hflag, hkill⟩ := hs (hloop ▸ hin)
    refine ⟨hopen, hflag, fun w' ops hpc => ?_⟩
    by_cases hw : w' = w
    · subst hw
      simp at hpc
    · exact hkill w' ops (State.goto_pc_of_ne s _ hw ▸ hpc)
  | work w c => exact hs.work ha (State.trans_of_work h)

/-- In a calm run a worker leaves its loop at the end of its stream. -/
theorem Unkilled.leavesAtEnd (hs : Unkilled d s) (ha : Calm duplicate d s a) :
    LeavesAtEnd duplicate d s a := by
  cases a with
  | work w c =>
    rintro rfl hleaves
    obtain ⟨hfail, htimeout⟩ := ha.1 rfl
    have hopen (hin : (s.pc d.worker).inLoop = true) := (hs hin).1
    rcases hleaves with hq | hr
    · cases hq with
      | stopped hpc hflag =>
        have hup := (hs (by rw [hpc]; rfl)).2.1
        simp [hup] at hflag
      | eof hT hpc hsrc _ hempty hfin =>
        obtain rfl := Source.sock.inj (hsrc.symm.trans (task_direction hT).1)
        exact ⟨hpc, hempty, hfin⟩
      | readTimeout => exact absurd rfl htimeout
      | writeTimeout => exact absurd rfl htimeout
    · cases hr with
      | readClosed hT hpc hsrc hclosed => simp [hopen (by rw [hpc]; rfl)] at hclosed
      | writeClosed hT hpc hout hclosed => simp [hopen (by rw [hpc]; rfl)] at hclosed
      | readFails | readDead | writeFails | putDead => exact absurd rfl hfail
  | _ => trivial

/-- **A stream arrives completely.** In every run of a session, duplicating or not, in which no call
of the worker of a direction on an open socket or on the pipe fails or times out, and no other
worker calls `register.kill()` before this one has left its loop: when it has left it, the one peer
has ended its stream, and all that it has ever sent has been written to the other one. -/
theorem session_complete
    (hG : (session duplicate cap).Along (Calm duplicate d) (registered duplicate) as)
    (hrun : (session duplicate cap).run (registered duplicate) as = some s)
    (hleft : (s.pc d.worker).inLoop = false) :
    (s.sock d.input).fin = true ∧ s.written d = delivered d.input as := by
  have hs := hG.labels_invariant (J := fun as s => Relayed d as s ∧ Fresh duplicate s ∧
      Unkilled d s ∧ ((s.pc d.worker).inLoop = false → Complete d as s))
    (fun past s a t hs ha h => ⟨hs.1.step hs.2.1 h, hs.2.1.step h, hs.2.2.1.step hs.2.1 ha h,
      complete_step hs.1 hs.2.1 hs.2.2.2 (hs.2.2.1.leavesAtEnd ha) h⟩)
    ⟨.registered, .registered _, fun _ => ⟨fun _ => rfl, rfl, fun _ _ => by simp [registered]⟩,
      fun h => (by cases d <;> cases h)⟩ hrun
  have hcomplete := hs.2.2.2 hleft
  exact ⟨hcomplete.fin, hcomplete.sent⟩

end Relayed

/-- A client that sends three bytes and ends its stream. The first worker reads and writes them in
pieces, and comes to the end. -/
def shortRequest : List Act :=
  [.start, .start, .peer .insocket (.deliver [1, 2, 3]), .work .clientToServer (.run 0),
    .work .clientToServer (.run 2), .peer .insocket .fin, .work .clientToServer (.run 1),
    .work .clientToServer (.run 1), .work .clientToServer (.run 0), .work .clientToServer (.run 1),
    .work .clientToServer (.run 1), .work .clientToServer (.run 0), .work .clientToServer (.run 0)]

/-- The request has been read, and one byte has been written of its first chunk. -/
theorem session_relayed_shortRequest : ∃ s,
    (session false 0).run (registered false) (shortRequest.take 7) = some s ∧
      s.written .request = [1] ∧ (s.pc .clientToServer).unsent = [2] ∧
      s.written .request ++ (s.pc .clientToServer).unsent ++ (s.sock .insocket).inbox =
        [1, 2, 3] := by
  obtain ⟨s, hrun, hwritten, hpc⟩ : ∃ s,
      (session false 0).run (registered false) (shortRequest.take 7) = some s ∧
        s.written .request = [1] ∧ s.pc .clientToServer = .write [1, 2] [2] := ⟨_, rfl, rfl, rfl⟩
  have hwhole := (session_relayed hrun .request).2 (by
    change (s.pc .clientToServer).inLoop = true
    rw [hpc]
    rfl)
  exact ⟨s, hrun, hwritten, by rw [hpc]; rfl, hwhole⟩

theorem session_complete_shortRequest : ∃ s,
    (session false 0).run (registered false) shortRequest = some s ∧
      (s.sock .insocket).fin = true ∧ s.written .request = [1, 2, 3] := by
  have hcalm : (session false 0).Along (Calm false .request) (registered false) shortRequest := by
    refine Machine.Along.mono (fun s a ha => ha s) (Machine.along_of_forall_mem
      (Q := fun a => ∀ s : State, Calm false .request s a) ?_ _)
    simp [shortRequest, Calm, Direction.worker]
  obtain ⟨s, hrun, hpc⟩ : ∃ s, (session false 0).run (registered false) shortRequest = some s ∧
      s.pc .clientToServer = .kill (kill false) := ⟨_, rfl, rfl⟩
  refine ⟨s, hrun, session_complete (d := .request) hcalm hrun ?_⟩
  change (s.pc .clientToServer).inLoop = false
  rw [hpc]
  rfl

end Parikshan.JavaProxy
