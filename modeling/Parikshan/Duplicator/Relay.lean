import Parikshan.Duplicator.Isolation
import Parikshan.Duplicator.Termination
import Parikshan.Posix.Relay

/-!
# Plain and asynchronous mode as relays

In plain mode `T1` and `T2` are `forward_data` in the two directions between the client and
production. Each of them shuts both sockets down at the end of its own source, "to stop other
processes from using" them: when an endpoint ends its stream, what the other one has not been
forwarded yet is cut off. What is forwarded is never wrong, the direction that ends first is
complete, and nothing is cut off if an endpoint ends its stream only when it has been sent all that
the other one sends.

Asynchronous mode, which plain mode simulates, relays in the same way whatever happens on the debug
side.

What a socket has been sent is what the kernel has accepted for its peer. When a byte arrives at a
socket that has been shut down the kernel resets the connection, and what its peer has not received
until then is lost; so nothing is said here of what an endpoint receives.

## Main definitions

* `said`: the bytes that a peer sends in a run.
* `Relaying`: the invariant of the runs in which no peer resets its connection.

## Main results

* `plain_relay`: what is sent to the two endpoints.
* `plain_relay_fails`: a client that half-closes after its request may not be sent the response.
* `asynch_relay`: the same in asynchronous mode.
-/

namespace Parikshan.Duplicator

open Posix

/-- The other end of the relay. -/
def SockId.other : SockId → SockId
  | .client => .remote
  | .remote => .client
  | .duplicate => .duplicate

/-- What the peer of a socket sends in an action. -/
def Act.delivers (i : SockId) : Act → List Byte
  | .peer j e => if j = i then e.payload else []
  | .handler => []
  | .work _ _ => []

/-- What the peer of a socket sends in a run: what has arrived before, and what it sends. -/
def said (w : World SockId Unit) (as : List Act) (i : SockId) : List Byte :=
  (w.sock i).inq ++ as.flatMap (Act.delivers i)

/-- The peers of the client and of production do not reset their connections. -/
def Act.Calm (a : Act) : Prop := ∀ i ∈ productionSocks, a ≠ .peer i .reset

/-- The invariant of a run in plain mode in which the peers have sent `x`. -/
structure Relaying (s : State) (x : SockId → List Byte) : Prop where
  workers : Workers false s
  relay : Relay s.world (s.proc .t1) (s.proc .t2) .client .remote (x .client) (x .remote)

namespace Relaying

variable {s t : State} {x : SockId → List Byte} {a : Act}

theorem handling {w : World SockId Unit} (hclient : (w.sock .client).Fresh)
    (hremote : (w.sock .remote).Fresh) :
    Relaying (handling false w) fun i => (w.sock i).inq where
  workers := .handling false w
  relay :=
    { holds := fun _ _ _ => rfl
      holds' := fun _ _ _ => rfl
      calm := by
        rintro j (rfl | rfl)
        · exact ⟨hclient.rst, hclient.err⟩
        · exact ⟨hremote.rst, hremote.err⟩
      forth := by
        have hsent := hremote.sent
        refine ⟨fun _ _ h => (by cases h), ?_, fun _ => ?_, fun _ _ => ?_⟩ <;>
          simp [Duplicator.handling, State.proc, forked, program, forwardDataAsynch, Pc.unsent,
            hsent]
      back := by
        have hsent := hclient.sent
        refine ⟨fun _ _ h => (by cases h), ?_, fun _ => ?_, fun _ _ => ?_⟩ <;>
          simp [Duplicator.handling, State.proc, forked, program, forwardData, Pc.unsent, hsent]
      ended := Or.inl ⟨rfl, rfl, hclient.shut, hremote.shut⟩ }

theorem step_peer {i : SockId} {e : Sock.Peer} (h : Relaying s x) (ha : (Act.peer i e).Calm)
    (hstep : (duplicator false).step s (.peer i e) = some t) :
    Relaying t fun j => x j ++ (Act.peer i e).delivers j := by
  have hworkers := h.workers.step hstep
  obtain ⟨y, hy, rfl⟩ := Duplicator.step_peer hstep
  refine ⟨hworkers, ?_⟩
  have happend (j : SockId) : (x j ++ if i = j then e.payload else []) =
      if i = j then x j ++ e.payload else x j := by
    split_ifs <;> simp
  simp only [Act.delivers, happend]
  exact h.relay.peer (by simp) (fun hi he => ha i hi (he ▸ rfl)) hy

theorem step_work {i : Tid} {c : Choice} (h : Relaying s x)
    (hstep : (duplicator false).step s (.work i c) = some t) : Relaying t x := by
  have hworkers := h.workers.step hstep
  obtain ⟨p, w', p', hp, hwork, rfl⟩ := Duplicator.step_work hstep
  have hproc := State.proc_of_worker hp
  refine ⟨hworkers, ?_⟩
  rw [State.setWorker_proc, State.setWorker_world]
  have hrelay := h.relay
  cases i with
  | t1 =>
    rw [hproc] at hrelay
    rcases workerStep_cases hwork with ⟨k, -, hpc, rfl, rfl⟩ | ⟨-, hL⟩
    · exact hrelay.exit (by rw [hpc]; rfl) rfl
    · exact hrelay.step rfl rfl rfl (by simp) hL
  | t2 =>
    rw [hproc] at hrelay
    rcases workerStep_cases hwork with ⟨k, -, hpc, rfl, rfl⟩ | ⟨-, hL⟩
    · exact (hrelay.swap.exit (by rw [hpc]; rfl) rfl).swap
    · exact (hrelay.swap.step rfl rfl rfl (by simp) hL).swap
  | t3 => simp [h.workers.others .t3 (by decide)] at hp
  | t4 => simp [h.workers.others .t4 (by decide)] at hp

/-- Every step at which no peer resets its connection keeps the invariant. -/
theorem step (h : Relaying s x) (ha : a.Calm) (hstep : (duplicator false).step s a = some t) :
    Relaying t fun j => x j ++ a.delivers j := by
  cases a with
  | peer i e => exact h.step_peer ha hstep
  | handler =>
    obtain ⟨hworld, hproc⟩ := h.workers.proc_handler hstep
    refine ⟨h.workers.step hstep, ?_⟩
    simp only [Act.delivers, List.append_nil, hworld, hproc]
    exact h.relay
  | work i c =>
    simp only [Act.delivers, List.append_nil]
    exact h.step_work hstep

theorem run {as : List Act} (h : Relaying s x) (has : ∀ a ∈ as, a.Calm)
    (hrun : (duplicator false).run s as = some t) :
    Relaying t fun j => x j ++ as.flatMap (Act.delivers j) := by
  induction as generalizing s x with
  | nil =>
    obtain rfl := Option.some.inj hrun
    simpa using h
  | cons a as ih =>
    obtain ⟨u, hu, hrun⟩ := (Machine.run_cons_eq_some _).mp hrun
    have hstep := h.step (has a List.mem_cons_self) hu
    simpa [List.append_assoc] using ih hstep (fun b hb => has b (List.mem_cons_of_mem _ hb)) hrun

/-- In a terminal state a worker that is still in its loop has nothing in hand, and nothing has
arrived for it. -/
theorem waiting (h : Relaying s x) (hterminal : Terminal false s) {t : Tid} (ht : t.Production)
    {i : SockId} (hsrc : (program false t).source = .sock i)
    (hin : (s.proc t).pc.inLoop = true) :
    (s.proc t).pc.unsent = [] ∧ (s.world.sock i).inq = [] := by
  have hfork : HandlerOp.fork t ∈ handleClient false := by rcases ht with rfl | rfl <;> decide
  obtain ⟨p, hp, hexited | hkilled | ⟨hpc, hwait⟩⟩ := h.workers.of_terminal hterminal hfork <;>
    rw [State.proc_of_worker hp] at hin ⊢
  · simp [hexited, Pc.inLoop] at hin
  · simp [hkilled, Pc.inLoop] at hin
  · refine ⟨by rw [hpc]; rfl, ?_⟩
    by_contra hinq
    exact hwait (hsrc ▸ fun _ => Or.inl hinq)

end Relaying

/-! ### The end of a stream -/

section Run

variable {asynch : Bool} {s t : State} {a : Act} {as : List Act} {i : SockId}

/-- What has been sent to a peer stays sent, and only the peer itself ends its stream. -/
theorem step_monotone (h : (duplicator asynch).step s a = some t) (i : SockId) :
    (s.world.sock i).sent <+: (t.world.sock i).sent ∧
      ((t.world.sock i).fin = true → (s.world.sock i).fin = true ∨ a = .peer i .fin) := by
  cases a with
  | peer j e =>
    obtain ⟨x, hx, rfl⟩ := step_peer h
    rw [World.setSock_sock]
    split_ifs with hij
    · subst hij
      refine ⟨?_, fun hfin => ?_⟩
      · rw [Sock.sent, Sock.sent, (Sock.peer_eq hx).1]
      · by_cases he : e = .fin
        · exact Or.inr (he ▸ rfl)
        · exact Or.inl ((Sock.peer_side hx).1 he ▸ hfin)
    · exact ⟨List.prefix_rfl, Or.inl⟩
  | handler =>
    obtain ⟨H, hH, ⟨-, rfl⟩ | ⟨j, ops, -, rfl⟩ | ⟨j, ops, -, rfl⟩⟩ := step_handler h <;>
      exact ⟨List.prefix_rfl, Or.inl⟩
  | work j c =>
    obtain ⟨p, w', p', hp, hwork, rfl⟩ := step_work h
    rcases workerStep_cases hwork with ⟨k, -, -, rfl, -⟩ | ⟨-, hL⟩
    · exact ⟨List.prefix_rfl, Or.inl⟩
    · exact ⟨Loop.step_sent_prefix i hL, fun hfin => Or.inl ((Loop.step_sides i hL).1 ▸ hfin)⟩

theorem run_sent_prefix (h : (duplicator asynch).run s as = some t) (i : SockId) :
    (s.world.sock i).sent <+: (t.world.sock i).sent := by
  induction as generalizing s with
  | nil =>
    obtain rfl := Option.some.inj h
    exact List.prefix_rfl
  | cons a as ih =>
    obtain ⟨u, hu, h⟩ := (Machine.run_cons_eq_some _).mp h
    exact (step_monotone hu i).1.trans (ih h)

/-- A stream that has ended has been ended by its peer at some step of the run. -/
theorem exists_fin (h : (duplicator asynch).run s as = some t)
    (hfin : (s.world.sock i).fin = false) (hfin' : (t.world.sock i).fin = true) :
    ∃ past rest u, as = past ++ .peer i .fin :: rest ∧
      (duplicator asynch).run s past = some u ∧
      (duplicator asynch).run u (.peer i .fin :: rest) = some t := by
  induction as generalizing s with
  | nil =>
    obtain rfl := Option.some.inj h
    simp [hfin] at hfin'
  | cons a as ih =>
    obtain ⟨u, hu, hrun⟩ := (Machine.run_cons_eq_some _).mp h
    cases hfinu : (u.world.sock i).fin with
    | false =>
      obtain ⟨past, rest, v, rfl, hpast, hrest⟩ := ih hrun hfinu
      exact ⟨a :: past, rest, v, rfl, (Machine.run_cons_eq_some _).mpr ⟨u, hu, hpast⟩, hrest⟩
    | true =>
      rcases (step_monotone hu i).2 hfinu with hs | rfl
      · simp [hfin] at hs
      · exact ⟨[], as, s, rfl, rfl, h⟩

end Run

/-- Both endpoints end their streams, if at all, when they have been sent all that the other one
sends in the run. -/
def Patient (w : World SockId Unit) (as : List Act) : Prop :=
  ∀ i ∈ productionSocks, ∀ past rest u, as = past ++ .peer i .fin :: rest →
    (duplicator false).run (handling false w) past = some u →
      (u.world.sock i).sent = said w as i.other

/-- What `Patient` says of plain mode, in either mode. -/
def PatientIn (asynch : Bool) (w : World SockId Unit) (as : List Act) : Prop :=
  ∀ i ∈ productionSocks, ∀ past rest u, as = past ++ .peer i .fin :: rest →
    (duplicator asynch).run (handling asynch w) past = some u →
      (u.world.sock i).sent = said w as i.other

section Patience

variable {asynch : Bool} {w : World SockId Unit} {s : State} {as : List Act} {i : SockId}

/-- An endpoint that has ended its stream when it had been sent everything has still been sent
it. -/
theorem sent_of_patient (hrun : (duplicator asynch).run (handling asynch w) as = some s)
    (hpatient : PatientIn asynch w as) (hi : i ∈ productionSocks)
    (hopen : (w.sock i).fin = false) (hfin : (s.world.sock i).fin = true)
    (hsent : (s.world.sock i).sent <+: said w as i.other) :
    (s.world.sock i).sent = said w as i.other := by
  obtain ⟨past, rest, u, rfl, hpast, hrest⟩ := exists_fin hrun hopen hfin
  have hall := hpatient i hi past rest u rfl hpast
  have hmono := run_sent_prefix hrest i
  rw [hall] at hmono
  exact hsent.eq_of_length (Nat.le_antisymm hsent.length_le hmono.length_le)

/-- What is left when nothing can be forwarded any more: the direction that ended first is
complete, and the other one is if its receiver has been patient. -/
theorem sent_all (hclient : (w.sock .client).Fresh) (hremote : (w.sock .remote).Fresh)
    (hrun : (duplicator asynch).run (handling asynch w) as = some s)
    (hforth : (s.world.sock .remote).sent <+: said w as .client)
    (hback : (s.world.sock .client).sent <+: said w as .remote)
    (hcases : (s.world.sock .remote).sent = said w as .client ∧
        (s.world.sock .client).sent = said w as .remote ∨
      (s.world.sock .remote).sent = said w as .client ∧ (s.world.sock .client).fin = true ∨
      (s.world.sock .client).sent = said w as .remote ∧ (s.world.sock .remote).fin = true) :
    ((s.world.sock .remote).sent = said w as .client ∨
      (s.world.sock .client).sent = said w as .remote) ∧
    (PatientIn asynch w as → (s.world.sock .remote).sent = said w as .client ∧
      (s.world.sock .client).sent = said w as .remote) := by
  rcases hcases with ⟨hforth', hback'⟩ | ⟨hforth', hfin⟩ | ⟨hback', hfin⟩
  · exact ⟨Or.inl hforth', fun _ => ⟨hforth', hback'⟩⟩
  · exact ⟨Or.inl hforth', fun hp => ⟨hforth',
      sent_of_patient hrun hp (Or.inl rfl) hclient.fin hfin hback⟩⟩
  · exact ⟨Or.inr hback', fun hp => ⟨sent_of_patient hrun hp (Or.inr rfl) hremote.fin hfin hforth,
      hback'⟩⟩

/-- Production does not end its stream, and the client does once, when it has been sent all that
production sends. -/
theorem patientIn_of_client {past rest : List Act} (hpast : Act.peer .client .fin ∉ past)
    (hrest : Act.peer .client .fin ∉ rest)
    (hremote : Act.peer .remote .fin ∉ past ++ Act.peer .client .fin :: rest)
    (hsent : ((duplicator asynch).run (handling asynch w) past).map
      (fun s => (s.world.sock .client).sent) =
        some (said w (past ++ .peer .client .fin :: rest) .remote)) :
    PatientIn asynch w (past ++ .peer .client .fin :: rest) := by
  rintro i (rfl | rfl) past' rest' u hsplit hu
  · obtain ⟨rfl, -, -⟩ := (List.append_cons_inj_of_notMem hpast hrest).mp hsplit
    rw [hu, Option.map_some, Option.some.injEq] at hsent
    exact hsent
  · exact absurd (hsplit ▸ by simp) hremote

end Patience

/-- **Plain mode as a relay.** For all streams of the client and of production, all chunks and all
orders of steps, when neither of the two resets its connection and each may end its sending
direction at any time: in every reachable state either one has been sent a prefix of what the other
one has sent. In every terminal state at least one direction is complete, and both are if each
endpoint ends its stream only when it has been sent all that the other one sends. -/
theorem plain_relay {w : World SockId Unit} {as : List Act} {s : State}
    (hclient : (w.sock .client).Fresh) (hremote : (w.sock .remote).Fresh)
    (hcalm : ∀ a ∈ as, a.Calm) (hrun : (duplicator false).run (handling false w) as = some s) :
    ((s.world.sock .remote).sent <+: said w as .client ∧
      (s.world.sock .client).sent <+: said w as .remote) ∧
    (Terminal false s →
      ((s.world.sock .remote).sent = said w as .client ∨
        (s.world.sock .client).sent = said w as .remote) ∧
      (Patient w as → (s.world.sock .remote).sent = said w as .client ∧
        (s.world.sock .client).sent = said w as .remote)) := by
  have h : Relaying s (said w as) := Relaying.run (.handling hclient hremote) hcalm hrun
  exact ⟨⟨h.relay.forth.sent, h.relay.back.sent⟩, fun hterminal => sent_all hclient hremote hrun
    h.relay.forth.sent h.relay.back.sent (h.relay.complete_or (h.waiting hterminal (Or.inl rfl) rfl)
      (h.waiting hterminal (Or.inr rfl) rfl))⟩

/-- A state in which only `T1` and `T2` have been forked, and both have ended, is terminal. -/
theorem terminal_of_ended {s : State} (hhandler : s.handler = none)
    (h₁ : s.At .t1 .exited ∨ s.At .t1 .killed) (h₂ : s.At .t2 .exited ∨ s.At .t2 .killed)
    (h₃ : s.worker .t3 = none) (h₄ : s.worker .t4 = none) : Terminal false s := by
  refine terminal_of_stopped hhandler fun as u hu hw hp t c => ?_
  have hended (i : Tid) (hi : s.At i .exited ∨ s.At i .killed) :
      u.At i .exited ∨ u.At i .killed := by
    rcases hi with ⟨p, hp, hpc⟩ | ⟨p, hp, hpc⟩
    · exact Or.inl ⟨p, hw ▸ hp, hpc⟩
    · exact Or.inr ⟨p, hw ▸ hp, hpc⟩
  cases t with
  | t1 => exact step_work_of_ended (hended _ h₁) c
  | t2 => exact step_work_of_ended (hended _ h₂) c
  | t3 => simp [duplicator, hw, h₃]
  | t4 => simp [duplicator, hw, h₄]

/-- Two connections on which the kernel accepts some bytes. -/
def idle : World SockId Unit := ⟨fun _ => { room := 8 }, fun _ => {}⟩

/-- The client sends a byte and production answers with one. -/
def answered : List Act :=
  List.replicate 6 .handler ++
    [.peer .client (.deliver [1]), .work .t1 (.run 1), .work .t1 (.run 1),
      .peer .remote (.deliver [2]), .work .t2 (.run 1), .work .t2 (.run 1)]

/-- Both workers come to the end of their loops. -/
def torndown : List Act :=
  List.replicate 6 (.work .t1 (.run 0)) ++ List.replicate 6 (.work .t2 (.run 0))

theorem plain_relay_answered : ∃ s,
    (duplicator false).run (handling false idle) (answered ++ .peer .client .fin :: torndown) =
        some s ∧
      (s.world.sock .remote).sent = said idle (answered ++ .peer .client .fin :: torndown) .client ∧
      (s.world.sock .client).sent =
        said idle (answered ++ .peer .client .fin :: torndown) .remote := by
  have hfacts : ((duplicator false).run (handling false idle)
      (answered ++ .peer .client .fin :: torndown)).map (fun s => (s.handler.isNone,
        [Tid.t1, .t2, .t3, .t4].map fun t => (s.worker t).map Proc.pc)) =
      some (true, [some .exited, some .exited, none, none]) := by decide
  obtain ⟨s, hrun, hs⟩ := Option.map_eq_some_iff.mp hfacts
  simp only [Prod.mk.injEq, List.map_cons, List.map_nil, List.cons.injEq, and_true,
    Option.isNone_iff_eq_none, Option.map_eq_some_iff, Option.map_eq_none_iff] at hs
  obtain ⟨hhandler, h₁, h₂, h₃, h₄⟩ := hs
  have hsent : ((duplicator false).run (handling false idle) answered).map
      (fun s => (s.world.sock .client).sent) = some [2] := by decide
  have hpatient : Patient idle (answered ++ .peer .client .fin :: torndown) :=
    patientIn_of_client (by decide) (by decide) (by decide) hsent
  have hfresh (i : SockId) : (idle.sock i).Fresh := ⟨⟨rfl, rfl, rfl⟩, rfl, rfl⟩
  obtain ⟨-, hall⟩ := plain_relay (hfresh .client) (hfresh .remote)
    (by simp [answered, torndown, Act.Calm]) hrun
  have hterminal : Terminal false s :=
    terminal_of_ended hhandler (Or.inl h₁) (Or.inl h₂) h₃ h₄
  exact ⟨s, hrun, (hall hterminal).2 hpatient⟩

/-- Bytes arrive at sockets only that have not been shut down. -/
def OnTime (s : State) : Act → Prop
  | .peer i (.deliver _) => (s.world.sock i).shut = false
  | _ => True

instance (s : State) : DecidablePred (OnTime s)
  | .peer i (.deliver _) => inferInstanceAs (Decidable ((s.world.sock i).shut = false))
  | .peer _ .fin | .peer _ .reset | .peer _ (.drain _) | .handler | .work _ _ => isTrue trivial

/-- The client ends its stream after its request. The response is there when `T1` shuts the sockets
down, and the kernel kills `T2` when it sends it to the client. -/
def halfClosed : List Act :=
  List.replicate 6 .handler ++
    [.peer .client (.deliver [1]), .peer .client .fin, .work .t1 (.run 1), .work .t1 (.run 1),
      .peer .remote (.deliver [2])] ++
    List.replicate 6 (.work .t1 (.run 0)) ++ List.replicate 2 (.work .t2 (.run 1))

theorem plain_relay_fails : ¬ ∀ (w : World SockId Unit) (as : List Act) (s : State),
    (w.sock .client).Fresh → (w.sock .remote).Fresh → (∀ a ∈ as, a.Calm) →
    (duplicator false).Along OnTime (handling false w) as →
    (duplicator false).run (handling false w) as = some s → Terminal false s →
    (s.world.sock .remote).sent = said w as .client ∧
      (s.world.sock .client).sent = said w as .remote := by
  intro hall
  have hfacts : ((duplicator false).run (handling false idle) halfClosed).map
      (fun s => (s.handler.isNone, [Tid.t1, .t2, .t3, .t4].map fun t => (s.worker t).map Proc.pc,
        (s.world.sock .client).sent)) =
      some (true, [some .exited, some .killed, none, none], []) := by decide
  obtain ⟨s, hrun, hs⟩ := Option.map_eq_some_iff.mp hfacts
  simp only [Prod.mk.injEq, List.map_cons, List.map_nil, List.cons.injEq, and_true,
    Option.isNone_iff_eq_none, Option.map_eq_some_iff, Option.map_eq_none_iff] at hs
  obtain ⟨hhandler, ⟨h₁, h₂, h₃, h₄⟩, hsent⟩ := hs
  have hfresh (i : SockId) : (idle.sock i).Fresh := ⟨⟨rfl, rfl, rfl⟩, rfl, rfl⟩
  have htime : (duplicator false).Along OnTime (handling false idle) halfClosed :=
    Machine.along_of_decide (by decide)
  have hback := (hall idle halfClosed s (hfresh .client) (hfresh .remote)
    (by simp [halfClosed, Act.Calm]) htime hrun
    (terminal_of_ended hhandler (Or.inl h₁) (Or.inr h₂) h₃ h₄)).2
  rw [hsent] at hback
  exact absurd hback (by decide)

/-! ### Asynchronous mode -/

/-- A step of the production side is matched by itself. -/
theorem eq_of_productionSide {a b : Act} (h : productionSide a = some b) : b = a := by
  unfold productionSide at h
  split at h <;> simp_all

theorem delivers_of_hidden {a : Act} {i : SockId} (hi : i ∈ productionSocks)
    (h : productionSide a = none) : a.delivers i = [] := by
  cases a with
  | handler => rfl
  | work t c => rfl
  | peer j e =>
    cases j with
    | client => cases h
    | remote => cases h
    | duplicate => exact if_neg fun hj => by simp [← hj, productionSocks] at hi

/-- The hidden steps send nothing to the production side. -/
theorem said_productionSide (w : World SockId Unit) (as : List Act) {i : SockId}
    (hi : i ∈ productionSocks) : said w (as.filterMap productionSide) i = said w as i := by
  rw [said, said]
  congr 1
  induction as with
  | nil => rfl
  | cons a as ih =>
    cases ha : productionSide a with
    | none =>
      rw [List.filterMap_cons_none ha, List.flatMap_cons, ih, delivers_of_hidden hi ha,
        List.nil_append]
    | some b =>
      rw [List.filterMap_cons_some ha, List.flatMap_cons, List.flatMap_cons, ih,
        eq_of_productionSide ha]

/-- The plain duplicator comes to have its workers forked and its handler gone. -/
theorem run_relaying (w : World SockId Unit) :
    (duplicator false).run (handling false w) (List.replicate 6 .handler) = some (relaying w) := by
  have hworker : Function.update (Function.update (fun _ => none) Tid.t1
      (some (forked (program false .t1)))) .t2 (some (forked (program false .t2))) =
        (relaying w).worker := by
    funext t
    cases t <;> rfl
  exact congrArg (fun f => some (State.mk w none f)) hworker

/-- The plain run that an asynchronous one is matched with has the invariant of a relay. -/
theorem exists_relaying {w : World SockId Unit} {as : List Act} {s : State}
    (hclient : (w.sock .client).Fresh) (hremote : (w.sock .remote).Fresh)
    (hcalm : ∀ a ∈ as, a.Calm) (hrun : (duplicator true).run (handling true w) as = some s) :
    ∃ u, Agree s u ∧ Relaying u (said w (as.filterMap productionSide)) := by
  obtain ⟨u, hu, hagree⟩ := simulation_plain.run (.handling fun _ _ => rfl) hrun
  have hstart : Relaying (relaying w) fun i => (w.sock i).inq := by
    have h := (Relaying.handling hclient hremote).run (by simp [Act.Calm]) (run_relaying w)
    simpa [Act.delivers] using h
  refine ⟨u, hagree, hstart.run (fun b hb => ?_) hu⟩
  obtain ⟨a, ha, hab⟩ := List.mem_filterMap.mp hb
  rw [eq_of_productionSide hab]
  exact hcalm a ha

/-- When the asynchronous duplicator is in a terminal state, a worker of the production side that
is still in its loop has nothing to forward. -/
theorem Agree.waiting {s u : State} {t : Tid} {i : SockId} (h : Agree s u) (hs : Workers true s)
    (hterminal : Terminal true s) (ht : t.Production) (hi : i ∈ productionSocks)
    (hsrc : (program true t).source = .sock i) (hin : (u.proc t).pc.inLoop = true) :
    (u.proc t).pc.unsent = [] ∧ (u.world.sock i).inq = [] := by
  have hfork : HandlerOp.fork t ∈ handleClient true := by rcases ht with rfl | rfl <;> decide
  obtain ⟨p₀, hp₀, huntee, -⟩ := h.worker t ht
  obtain ⟨p, hp, hcases⟩ := hs.of_terminal hterminal hfork
  have hpc₀ := huntee.pc
  rw [hp, Option.getD_some] at hpc₀
  rw [State.proc_of_worker hp₀, hpc₀] at hin ⊢
  obtain hexited | hkilled | ⟨hpc, hwait⟩ := hcases
  · simp [hexited, Pc.untee, Pc.inLoop] at hin
  · simp [hkilled, Pc.untee, Pc.inLoop] at hin
  · refine ⟨by rw [hpc]; rfl, ?_⟩
    rw [h.socks i hi]
    by_contra hinq
    exact hwait (hsrc ▸ fun _ => Or.inl hinq)

/-- **Asynchronous mode as a relay.** What holds of plain mode holds of asynchronous mode, whatever
the pipe, the duplicate and the workers of the debug side do, resets of the duplicate included. -/
theorem asynch_relay {w : World SockId Unit} {as : List Act} {s : State}
    (hclient : (w.sock .client).Fresh) (hremote : (w.sock .remote).Fresh)
    (hcalm : ∀ a ∈ as, a.Calm) (hrun : (duplicator true).run (handling true w) as = some s) :
    ((s.world.sock .remote).sent <+: said w as .client ∧
      (s.world.sock .client).sent <+: said w as .remote) ∧
    (Terminal true s →
      ((s.world.sock .remote).sent = said w as .client ∨
        (s.world.sock .client).sent = said w as .remote) ∧
      (PatientIn true w as → (s.world.sock .remote).sent = said w as .client ∧
        (s.world.sock .client).sent = said w as .remote)) := by
  obtain ⟨u, hagree, hrelaying⟩ := exists_relaying hclient hremote hcalm hrun
  have hc : SockId.client ∈ productionSocks := Or.inl rfl
  have hr : SockId.remote ∈ productionSocks := Or.inr rfl
  have hrelay := hrelaying.relay
  rw [said_productionSide w as hc, said_productionSide w as hr] at hrelay
  have hforth := hrelay.forth.sent
  have hback := hrelay.back.sent
  rw [hagree.socks .remote hr] at hforth
  rw [hagree.socks .client hc] at hback
  refine ⟨⟨hforth, hback⟩, fun hterminal => ?_⟩
  have hworkers := (Workers.handling true w).run hrun
  have hcases := hrelay.complete_or
    (hagree.waiting hworkers hterminal (Or.inl rfl) hc rfl)
    (hagree.waiting hworkers hterminal (Or.inr rfl) hr rfl)
  rw [hagree.socks .remote hr, hagree.socks .client hc] at hcases
  exact sent_all hclient hremote hrun hforth hback hcases

/-- The client sends a byte, the duplicate resets its connection before it is sent a copy, and
production answers. -/
def answeredAlone : List Act :=
  List.replicate 8 .handler ++
    [.peer .client (.deliver [1]), .peer .duplicate .reset, .work .t1 (.run 1), .work .t1 (.run 1),
      .work .t1 (.write true), .peer .remote (.deliver [2]), .work .t2 (.run 1), .work .t2 (.run 1)]

/-- The worker `T3` reads the byte and fails to send it, and the others come to the end of their
loops. -/
def wornDown : List Act :=
  [.work .t3 (.run 0), .work .t3 (.run 1), .work .t3 (.run 1)] ++
    List.replicate 6 (.work .t1 (.run 0)) ++ List.replicate 6 (.work .t2 (.run 0)) ++
    List.replicate 4 (.work .t4 (.run 0))

/-- Three connections on which the kernel accepts some bytes, and a pipe that has room. -/
def roomy : World SockId Unit := ⟨fun _ => { room := 8 }, fun _ => { cap := 8 }⟩

theorem asynch_relay_answeredAlone : ∃ s,
    (duplicator true).run (handling true roomy)
        (answeredAlone ++ .peer .client .fin :: wornDown) = some s ∧
      (s.world.sock .remote).sent =
        said roomy (answeredAlone ++ .peer .client .fin :: wornDown) .client ∧
      (s.world.sock .client).sent =
        said roomy (answeredAlone ++ .peer .client .fin :: wornDown) .remote := by
  have hfacts : ((duplicator true).run (handling true roomy)
      (answeredAlone ++ .peer .client .fin :: wornDown)).map (fun s => (s.handler.isNone,
        [Tid.t1, .t2, .t3, .t4].map fun t => (s.worker t).map Proc.pc,
        (s.world.pipe ()).buf)) =
      some (true, [some .exited, some .exited, some .read, some .exited], []) := by decide
  obtain ⟨s, hrun, hs⟩ := Option.map_eq_some_iff.mp hfacts
  simp only [Prod.mk.injEq, List.map_cons, List.map_nil, List.cons.injEq, and_true,
    Option.isNone_iff_eq_none, Option.map_eq_some_iff] at hs
  obtain ⟨hhandler, ⟨h₁, h₂, h₃, h₄⟩, hbuf⟩ := hs
  have hsent : ((duplicator true).run (handling true roomy) answeredAlone).map
      (fun s => (s.world.sock .client).sent) = some [2] := by decide
  have hpatient : PatientIn true roomy (answeredAlone ++ .peer .client .fin :: wornDown) :=
    patientIn_of_client (by decide) (by decide) (by decide) hsent
  have hfresh (i : SockId) : (roomy.sock i).Fresh := ⟨⟨rfl, rfl, rfl⟩, rfl, rfl⟩
  obtain ⟨-, hall⟩ := asynch_relay (hfresh .client) (hfresh .remote)
    (by simp [answeredAlone, wornDown, Act.Calm, productionSocks]) hrun
  exact ⟨s, hrun, (hall (terminal_of_reading hrun hhandler h₁ h₂ h₃ h₄ hbuf)).2 hpatient⟩

end Parikshan.Duplicator
