import Parikshan.JavaProxy.Session

/-!
# What the replica receives

The bytes for the replica go from the client to the server first, chunk by chunk, then into the
pipe piece by piece, and from there to the replica in the chunks of another worker. As long as both
workers are in their loops nothing is lost between the two: what the replica has been sent, what
its worker has in hand, what is in the pipe and what is left of the current chunk is what the
server has been sent and is being sent. Whenever one of the workers stops, what the replica has
been sent stays a prefix of what the server has been sent.

## Main definitions

* `Pc.unsent`, `Pc.unput`: what is left of the current chunk.
* `Streamed`: the invariant.

## Main results

* `replica_stream`: the stream of the replica in every reachable state.
-/

namespace Parikshan.JavaProxy

/-- What a worker still has to write to its socket of the chunk it has read. -/
def Pc.unsent : Pc → List Byte
  | .write _ rest => rest
  | _ => []

/-- What a worker still has to put into the pipe of the chunk it has read. -/
def Pc.unput : Pc → List Byte
  | .write buf _ => buf
  | .pipe rest => rest
  | _ => []

namespace State

variable (s : State)

/-- What has been written to the server. -/
def toServer : List Byte := (s.sock .outsocket).sent

/-- What has been written to the replica. -/
def toReplica : List Byte := (s.sock .replicaSocket).sent

/-- What has been written to the replica, what the worker that writes to it has in hand, and what
is in the pipe. -/
def mirrored : List Byte := s.toReplica ++ (s.pc .pipeToSock).unsent ++ s.pipe

end State

/-- What a step does to the stream: nothing, or the writer of the pipe reads a chunk, or writes
bytes of it to the server, or puts bytes of it into the pipe. The reader of the pipe only hands
bytes on. -/
inductive Flow (s t : State) : Prop
  | quiet (hmirrored : t.mirrored = s.mirrored) (hserver : t.toServer = s.toServer)
      (hkeep : (t.pc .clientToServer).inLoop = true ∨
        (s.pc .clientToServer).unput = [] ∧ (s.pc .clientToServer).unsent = [] →
          (t.pc .clientToServer).unput = (s.pc .clientToServer).unput ∧
            (t.pc .clientToServer).unsent = (s.pc .clientToServer).unsent)
  | recv {bs : List Byte} (hpc : s.pc .clientToServer = .read)
      (hpc' : t.pc .clientToServer = .write bs bs) (hmirrored : t.mirrored = s.mirrored)
      (hserver : t.toServer = s.toServer)
  | send {bs buf rest : List Byte} (hpc : s.pc .clientToServer = .write buf rest)
      (hunput : (t.pc .clientToServer).unput = buf)
      (hunsent : bs ++ (t.pc .clientToServer).unsent = rest) (hmirrored : t.mirrored = s.mirrored)
      (hserver : t.toServer = s.toServer ++ bs)
  | put {bs rest : List Byte} (hpc : s.pc .clientToServer = .pipe rest)
      (hunput : bs ++ (t.pc .clientToServer).unput = rest)
      (hunsent : (t.pc .clientToServer).unsent = []) (hmirrored : t.mirrored = s.mirrored ++ bs)
      (hserver : t.toServer = s.toServer)

/-- Nothing is lost between the server and the replica. -/
def Balanced (s : State) : Prop :=
  s.mirrored ++ (s.pc .clientToServer).unput = s.toServer ++ (s.pc .clientToServer).unsent

namespace Flow

variable {s t : State}

/-- Others move. -/
theorem of_frame (hserver : t.toServer = s.toServer) (hreplica : t.toReplica = s.toReplica)
    (hpipe : t.pipe = s.pipe) (hwriter : t.pc .clientToServer = s.pc .clientToServer)
    (hreader : (t.pc .pipeToSock).unsent = (s.pc .pipeToSock).unsent) : Flow s t := by
  refine .quiet ?_ hserver fun _ => by rw [hwriter]; exact ⟨rfl, rfl⟩
  rw [State.mirrored, State.mirrored, hreplica, hpipe, hreader]

/-- A step that loses nothing of what the writer of the pipe has in hand. -/
theorem balanced (h : Flow s t) (hs : Balanced s)
    (hkept : (t.pc .clientToServer).inLoop = true ∨
      (s.pc .clientToServer).unput = [] ∧ (s.pc .clientToServer).unsent = []) : Balanced t := by
  rw [Balanced] at hs ⊢
  cases h with
  | quiet hmirrored hserver hkeep =>
    obtain ⟨hunput, hunsent⟩ := hkeep hkept
    rw [hmirrored, hserver, hunput, hunsent, hs]
  | recv hpc hpc' hmirrored hserver =>
    simp only [hpc, Pc.unput, Pc.unsent, List.append_nil] at hs
    rw [hmirrored, hserver, hpc', hs]
    rfl
  | @send bs buf rest hpc hunput hunsent hmirrored hserver =>
    simp only [hpc, Pc.unput, Pc.unsent] at hs
    rw [hmirrored, hserver, hunput, hs, List.append_assoc, hunsent]
  | put hpc hunput hunsent hmirrored hserver =>
    simp only [hpc, Pc.unput, Pc.unsent, List.append_nil] at hs
    rw [hmirrored, hserver, hunsent, List.append_nil, List.append_assoc, hunput, hs]

/-- What is on its way to the replica stays a part of what the server has been sent. -/
theorem mirrored_prefix (h : Flow s t) (hs : s.mirrored <+: s.toServer)
    (hbalanced : (s.pc .clientToServer).inLoop = true → Balanced s) :
    t.mirrored <+: t.toServer := by
  cases h with
  | quiet hmirrored hserver => rwa [hmirrored, hserver]
  | recv hpc hpc' hmirrored hserver => rwa [hmirrored, hserver]
  | send hpc hunput hunsent hmirrored hserver =>
    rw [hmirrored, hserver]
    exact hs.trans (List.prefix_append _ _)
  | @put bs rest hpc hunput hunsent hmirrored hserver =>
    have hwhole := hbalanced (by rw [hpc]; rfl)
    simp only [Balanced, hpc, Pc.unput, Pc.unsent, List.append_nil] at hwhole
    rw [hmirrored, hserver, ← hwhole, List.prefix_append_right_inj, ← hunput]
    exact List.prefix_append _ _

end Flow

section Steps

variable {cap : ℕ} {s t : State} {w : Worker} {c : Choice}

/-- What is left of a chunk after a write of `k` bytes of `rest`. -/
theorem Task.unsent_afterWrite (T : Task) (buf rest : List Byte) (k : ℕ) :
    rest.take k ++
      (if rest.drop k = [] then T.afterWrite buf else .write buf (rest.drop k) : Pc).unsent =
        rest := by
  have htake := List.take_append_drop k rest
  split_ifs with hk
  · rw [hk, List.append_nil] at htake
    cases hpos : T.pos <;> simpa [Task.afterWrite, hpos, Pc.unsent] using htake
  · exact htake

/-- A step of the writer of the pipe. -/
theorem flow_writer (h : s.Trans true cap .clientToServer c t) : Flow s t := by
  have hreplica : t.toReplica = s.toReplica :=
    h.sent_eq fun T hT => (task_of_ne_pipeToSock hT (by simp)).2
  have hreader : t.pc .pipeToSock = s.pc .pipeToSock := h.pc_of_ne (by simp)
  have hmirrored (hpipe : t.pipe = s.pipe) : t.mirrored = s.mirrored := by
    rw [State.mirrored, State.mirrored, hreplica, hpipe, hreader]
  by_cases hin : (t.pc .clientToServer).inLoop = true
  · cases h with
    | read hpc hflag =>
      refine .quiet (hmirrored rfl) rfl fun _ => ?_
      simp [hpc, Pc.unsent, Pc.unput]
    | recv hT hpc hsrc =>
      obtain rfl : communicateToServerAndPipe .insocket .outsocket = _ := Option.some.inj hT
      obtain rfl : SockId.insocket = _ := Source.sock.inj hsrc
      refine .recv hpc (State.goto_pc_self ..) (hmirrored rfl) ?_
      simp [State.toServer, State.setSock_sock_of_ne]
    | take hT hpc hsrc =>
      obtain rfl : communicateToServerAndPipe .insocket .outsocket = _ := Option.some.inj hT
      cases hsrc
    | @send T i k buf rest hT hpc hout =>
      obtain rfl : communicateToServerAndPipe .insocket .outsocket = _ := Option.some.inj hT
      obtain rfl : SockId.outsocket = i := Option.some.inj hout
      refine @Flow.send s _ (rest.take k) buf rest hpc ?_ ?_ (hmirrored rfl) ?_
      · rw [State.goto_pc_self]
        split_ifs <;> rfl
      · rw [State.goto_pc_self]
        exact Task.unsent_afterWrite _ _ _ _
      · simp [State.toServer]
    | @put T k rest hT hpc =>
      refine @Flow.put s _ (rest.take k) rest hpc ?_ ?_ ?_ rfl
      · rw [State.goto_pc_self]
        split_ifs with hk
        · have htake := List.take_append_drop k rest
          rw [hk, List.append_nil] at htake
          simpa [Pc.unput] using htake
        · exact List.take_append_drop k rest
      · rw [State.goto_pc_self]
        split_ifs <;> rfl
      · rw [State.mirrored, State.mirrored, hreplica, hreader, List.append_assoc]
        simp
    | _ => simp [Pc.inLoop] at hin
  · obtain ⟨hpipe, hsent⟩ := h.of_left (by simpa using hin)
    refine .quiet (hmirrored hpipe) (hsent _) fun hkept => ?_
    obtain ⟨hunput, hunsent⟩ := hkept.resolve_left hin
    rw [hunput, hunsent]
    cases hpc : t.pc .clientToServer <;> simp [hpc, Pc.inLoop, Pc.unput, Pc.unsent] at hin ⊢

/-- A step of the reader of the pipe, unless it loses what it has in hand. -/
theorem flow_reader (h : s.Trans true cap .pipeToSock c t)
    (hkept : (t.pc .pipeToSock).inLoop = true ∨ (s.pc .pipeToSock).unsent = []) : Flow s t := by
  have hserver : t.toServer = s.toServer :=
    h.sent_eq fun T hT => (task_of_ne_clientToServer hT (by simp)).2.1
  have hwriter : t.pc .clientToServer = s.pc .clientToServer := h.pc_of_ne (by simp)
  have hquiet (hmirrored : t.mirrored = s.mirrored) : Flow s t :=
    .quiet hmirrored hserver fun _ => by rw [hwriter]; exact ⟨rfl, rfl⟩
  by_cases hin : (t.pc .pipeToSock).inLoop = true
  · cases h with
    | read hpc hflag => exact hquiet (by simp [State.mirrored, State.toReplica, hpc, Pc.unsent])
    | recv hT hpc hsrc =>
      obtain rfl := Option.some.inj hT
      cases hsrc
    | take hT hpc hsrc =>
      obtain rfl := Option.some.inj hT
      refine hquiet ?_
      simp [State.mirrored, State.toReplica, hpc, Pc.unsent, Task.afterRead, communicatePipeToSock]
    | @send T i k buf rest hT hpc hout =>
      obtain rfl := Option.some.inj hT
      obtain rfl : SockId.replicaSocket = i := Option.some.inj hout
      refine hquiet ?_
      rw [State.mirrored, State.mirrored, State.goto_pc_self, hpc]
      simp only [State.toReplica, State.goto_sock, State.setSock_sock_self, List.append_assoc]
      rw [← List.append_assoc (rest.take k), Task.unsent_afterWrite]
      rfl
    | put hT hpc htee =>
      obtain rfl := Option.some.inj hT
      cases htee
    | _ => simp [Pc.inLoop] at hin
  · obtain ⟨hpipe, hsent⟩ := h.of_left (by simpa using hin)
    refine hquiet ?_
    rw [State.mirrored, State.mirrored, State.toReplica, State.toReplica, hsent, hpipe,
      hkept.resolve_left hin]
    cases hpc : t.pc .pipeToSock <;> simp [hpc, Pc.inLoop, Pc.unsent] at hin ⊢

/-- **What a step of a worker does to the stream.** -/
theorem flow_of_trans (h : s.Trans true cap w c t)
    (hkept : (t.pc .pipeToSock).inLoop = true ∨ (s.pc .pipeToSock).unsent = []) : Flow s t := by
  by_cases hw₁ : w = .clientToServer
  · subst hw₁
    exact flow_writer h
  by_cases hw₃ : w = .pipeToSock
  · subst hw₃
    exact flow_reader h hkept
  have hserver : t.toServer = s.toServer :=
    h.sent_eq fun T hT => (task_of_ne_clientToServer hT hw₁).2.1
  have hreplica : t.toReplica = s.toReplica :=
    h.sent_eq fun T hT => (task_of_ne_pipeToSock hT hw₃).2
  have hpipe : t.pipe = s.pipe := h.pipe_eq fun T hT =>
    ⟨(task_of_ne_pipeToSock hT hw₃).1, (task_of_ne_clientToServer hT hw₁).2.2⟩
  refine .of_frame hserver hreplica hpipe (h.pc_of_ne (Ne.symm hw₁)) ?_
  rw [h.pc_of_ne (Ne.symm hw₃)]

/-- What has been written to the server stays written. -/
theorem State.Trans.toServer_prefix (h : s.Trans true cap w c t) : s.toServer <+: t.toServer := by
  by_cases hw : w = .clientToServer
  · subst hw
    cases flow_writer h with
    | quiet _ hserver => exact hserver ▸ List.prefix_rfl
    | recv _ _ _ hserver => exact hserver ▸ List.prefix_rfl
    | send _ _ _ _ hserver => exact hserver ▸ List.prefix_append _ _
    | put _ _ _ _ hserver => exact hserver ▸ List.prefix_rfl
  · have hserver : t.toServer = s.toServer :=
      h.sent_eq fun T hT => (task_of_ne_clientToServer hT hw).2.1
    exact hserver ▸ List.prefix_rfl

/-- Bytes are written to the replica only while the reader of the pipe is in its loop. -/
theorem State.Trans.toReplica_eq (h : s.Trans true cap w c t)
    (hin : (t.pc .pipeToSock).inLoop = false) : t.toReplica = s.toReplica := by
  by_cases hw : w = .pipeToSock
  · subst hw
    exact (h.of_left hin).2 _
  · exact h.sent_eq fun T hT => (task_of_ne_pipeToSock hT hw).2

/-- What a peer does, and the start of a thread, leaves the stream as it is. -/
theorem flow_of_other {a : Act} (hfresh : Fresh true s) (ha : ∀ w c, a ≠ .work w c)
    (h : (session true cap).step s a = some t) :
    Flow s t ∧ t.toServer = s.toServer ∧ t.toReplica = s.toReplica ∧
      ∀ w, (t.pc w).inLoop = (s.pc w).inLoop := by
  cases a with
  | peer i e =>
    obtain ⟨x, -, -, hsent, rfl⟩ := step_peer h
    exact ⟨.of_frame (hsent _) (hsent _) rfl rfl rfl, hsent _, hsent _, fun _ => rfl⟩
  | start =>
    obtain ⟨w, ws, hstarting, rfl⟩ := step_start h
    have hpc : s.pc w = .unstarted :=
      ((hfresh.mem_iff w).mp (hstarting ▸ List.mem_cons_self)).2
    have hsame (w' : Worker) : ((s.goto w .loop).pc w').inLoop = (s.pc w').inLoop ∧
        ((s.goto w .loop).pc w').unsent = (s.pc w').unsent ∧
        ((s.goto w .loop).pc w').unput = (s.pc w').unput := by
      by_cases hw : w' = w
      · subst hw
        simp [hpc, Pc.inLoop, Pc.unsent, Pc.unput]
      · rw [State.goto_pc_of_ne s _ hw]
        exact ⟨rfl, rfl, rfl⟩
    refine ⟨.quiet ?_ rfl fun _ => ⟨(hsame _).2.2, (hsame _).2.1⟩, rfl, rfl,
      fun w' => (hsame w').1⟩
    exact congrArg (fun u => s.toReplica ++ u ++ s.pipe) (hsame .pipeToSock).2.1
  | work w c => exact absurd rfl (ha w c)

end Steps

/-- The stream of the replica. -/
structure Streamed (s : State) : Prop where
  sent : s.toReplica <+: s.toServer
  reader : (s.pc .pipeToSock).inLoop = true → s.mirrored <+: s.toServer
  whole : (s.pc .clientToServer).inLoop = true → (s.pc .pipeToSock).inLoop = true → Balanced s

namespace Streamed

variable {cap : ℕ} {s t : State} {a : Act}

theorem registered : Streamed (registered true) :=
  ⟨List.nil_prefix, fun _ => List.nil_prefix, fun _ _ => rfl⟩

/-- A step in which no worker loses what it has in hand, unless it leaves its loop. -/
theorem of_flow (hs : Streamed s) (hflow : (t.pc .pipeToSock).inLoop = true → Flow s t)
    (hin : ∀ w, (t.pc w).inLoop = true → (s.pc w).inLoop = true)
    (hserver : s.toServer <+: t.toServer)
    (hreplica : (t.pc .pipeToSock).inLoop = false → t.toReplica = s.toReplica) : Streamed t := by
  have hreader (h₃ : (t.pc .pipeToSock).inLoop = true) : t.mirrored <+: t.toServer :=
    Flow.mirrored_prefix (hflow h₃) (hs.reader (hin _ h₃)) fun h₁ => hs.whole h₁ (hin _ h₃)
  refine ⟨?_, hreader, fun h₁ h₃ => (hflow h₃).balanced (hs.whole (hin _ h₁) (hin _ h₃))
    (Or.inl h₁)⟩
  by_cases h₃ : (t.pc .pipeToSock).inLoop = true
  · refine List.IsPrefix.trans ?_ (hreader h₃)
    rw [State.mirrored, List.append_assoc]
    exact List.prefix_append _ _
  · rw [hreplica (by simpa using h₃)]
    exact hs.sent.trans hserver

/-- **The stream is kept by every step.** -/
theorem step (hs : Streamed s) (hfresh : Fresh true s)
    (h : (session true cap).step s a = some t) : Streamed t := by
  by_cases ha : ∀ w c, a ≠ .work w c
  · obtain ⟨hflow, hserver, hreplica, hin⟩ := flow_of_other hfresh ha h
    exact hs.of_flow (fun _ => hflow) (fun w hw => hin w ▸ hw) (hserver ▸ List.prefix_rfl)
      fun _ => hreplica
  · simp only [ne_eq, not_forall, not_not] at ha
    obtain ⟨w, c, rfl⟩ := ha
    have htrans := State.trans_of_work h
    exact hs.of_flow (fun h₃ => flow_of_trans htrans (Or.inl h₃)) (fun w' => htrans.inLoop)
      htrans.toServer_prefix htrans.toReplica_eq

end Streamed

theorem streamed_of_run {cap : ℕ} {as : List Act} {s : State}
    (hrun : (session true cap).run (registered true) as = some s) : Streamed s ∧ Fresh true s :=
  Machine.invariant_of_step (I := fun s => Streamed s ∧ Fresh true s)
    (fun _ _ _ hs h => ⟨hs.1.step hs.2 h, hs.2.step h⟩) ⟨.registered, .registered true⟩ hrun

/-- **The stream of the replica.** In every reachable state of a duplicating session what has been
written to the replica is a prefix of what has been written to the server. While neither the worker
that writes to the pipe nor the one that reads from it has left its loop, what has been written to
the replica, the chunk in the hands of the reader, the contents of the pipe and what the writer has
not put into the pipe yet of its chunk are what has been written to the server, with what the
writer is still writing to it of that chunk. -/
theorem replica_stream {cap : ℕ} {as : List Act} {s : State}
    (hrun : (session true cap).run (registered true) as = some s) :
    s.toReplica <+: s.toServer ∧
      ((s.pc .clientToServer).inLoop = true → (s.pc .pipeToSock).inLoop = true →
        s.toReplica ++ (s.pc .pipeToSock).unsent ++ s.pipe ++ (s.pc .clientToServer).unput =
          s.toServer ++ (s.pc .clientToServer).unsent) := by
  obtain ⟨hs, -⟩ := streamed_of_run hrun
  exact ⟨hs.sent, hs.whole⟩

/-- A request of three bytes, of which two are in the pipe or beyond it, and one with the
replica. -/
def mirroring : List Act :=
  [.start, .start, .start, .start, .peer .insocket (.deliver [1, 2, 3]),
    .work .clientToServer (.run 0), .work .clientToServer (.run 3),
    .work .clientToServer (.run 3), .work .clientToServer (.put 2), .work .pipeToSock (.run 0),
    .work .pipeToSock (.run 2), .work .pipeToSock (.run 1)]

theorem replica_stream_mirroring :
    ∃ s, (session true 2).run (registered true) mirroring = some s ∧
      s.toReplica = [1] ∧ s.toReplica <+: s.toServer ∧
      s.toReplica ++ (s.pc .pipeToSock).unsent ++ s.pipe ++ (s.pc .clientToServer).unput =
        s.toServer ++ (s.pc .clientToServer).unsent := by
  have hstate : ((session true 2).run (registered true) mirroring).map (fun s =>
      (s.toReplica, s.pc .clientToServer, s.pc .pipeToSock)) =
        some ([1], .pipe [3], .write [1, 2] [2]) := by decide
  obtain ⟨s, hrun, hs⟩ := Option.map_eq_some_iff.mp hstate
  simp only [Prod.mk.injEq] at hs
  obtain ⟨hstream, hwhole⟩ := replica_stream hrun
  exact ⟨s, hrun, hs.1, hstream, hwhole (by rw [hs.2.1]; rfl) (by rw [hs.2.2]; rfl)⟩

end Parikshan.JavaProxy
