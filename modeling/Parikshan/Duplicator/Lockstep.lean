import Parikshan.Duplicator.Synch
import Parikshan.Posix.Unchecked

/-!
# Production and the duplicate in lockstep

In synchronous mode (`-s`) `T1` is `forward_data_synch`, which sends every chunk of the client's to
production and then to the duplicate, and `T2` is `receive_data_synch`. At the end of its loop each
of the two shuts all three connections down; one that is killed by `SIGPIPE` shuts down none.

Runs start when the connections are set up, with `-s` and without `-a` (`proxy.c`, line 334). `fork`
is taken to succeed; diagnostics are left out, and so is what the calls of `close` do, since no
socket is closed before all processes that hold it have exited.

## Main definitions

* `State.forwardDataSynch`: one step of `forward_data_synch`.
* `lockstep`: the machine of `handle_client`, the two workers and the three peers.
* `Trans`: what a step can do.
* `Closings`: the invariant of `handle_client` and of the ends of the workers.

## Main results

* `trans_of_step`: inversion of a step.
* `Closings.step`: the invariant of the ends.
-/

namespace Parikshan.Duplicator.Lockstep

open Posix

/-! ### The machine -/

/-- What `forward_data_synch` does after its loop, lines 537–551. -/
def closing : List (Op SockId) :=
  [.shutdown .remote, .close .remote, .shutdown .duplicate, .close .duplicate, .shutdown .client,
    .close .client]

/-- Where `forward_data_synch` is: before `recv` from the client, in `send` to production or to the
duplicate with what is left to be copied, behind the loop, or gone by a signal. -/
inductive Pc
  | read
  | sendRemote (buffer rest : List Byte)
  | sendDuplicate (buffer rest : List Byte)
  | cleanup (ops : List (Op SockId))
  | killed
  deriving DecidableEq, Repr

/-- A handled client: what is left of `handle_client`, the two workers, if they have been forked,
the sockets, what `T1` has received from the client, and what the peers have sent. -/
structure State where
  handler : List HandlerOp
  t1 : Option Pc
  t2 : Option Synch.Pc
  sock : SockId → Sock
  got : List Byte
  said : SockId → List Byte

namespace State

variable (s : State)

/-- `T1` goes on, with a socket after a call. -/
def goto (i : SockId) (x : Sock) (pc : Pc) : State :=
  { s with sock := Function.update s.sock i x, t1 := some pc }

/-- What follows `recv` from the client. -/
def afterRead : Ret → Pc
  | .bytes bs => .sendRemote bs bs
  | .eof => .cleanup closing
  | .error => .cleanup closing

/-- What follows a step of `send` to production. -/
def afterRemote (buffer : List Byte) : Sock.Sending → Pc
  | .more rest => .sendRemote buffer rest
  | .returned => .sendDuplicate buffer buffer
  | .sigpipe => .killed

/-- What follows a step of `send` to the duplicate. -/
def afterDuplicate (buffer : List Byte) : Sock.Sending → Pc
  | .more rest => .sendDuplicate buffer rest
  | .returned => .read
  | .sigpipe => .killed

/-- A call behind the loop. -/
def apply (ops : List (Op SockId)) : Op SockId → State
  | .shutdown i => s.goto i (s.sock i).shutdown (.cleanup ops)
  | .close _ => { s with t1 := some (.cleanup ops) }

/-- One step of `forward_data_synch(client_sock, remote_sock, duplicate_destination_sock)`,
lines 526–551. -/
def forwardDataSynch (k : ℕ) : Option State :=
  match s.t1 with
  | some .read =>
    ((s.sock .client).recv bufSize k).map fun x =>
      { s.goto .client x.2 (afterRead x.1) with got := s.got ++ Synch.data x.1 }
  | some (.sendRemote buffer rest) =>
    ((s.sock .remote).send k buffer rest).map fun x => s.goto .remote x.2 (afterRemote buffer x.1)
  | some (.sendDuplicate buffer rest) =>
    ((s.sock .duplicate).send k buffer rest).map fun x =>
      s.goto .duplicate x.2 (afterDuplicate buffer x.1)
  | some (.cleanup (op :: ops)) => some (s.apply ops op)
  | some (.cleanup []) => none
  | some .killed => none
  | none => none

/-- `T2` with its sockets. -/
def replier (pc : Synch.Pc) : Synch.State where
  pc := pc
  sock := s.sock
  taken := []
  replies := s.said

/-- `T2` has gone on. -/
def replied (u : Synch.State) : State := { s with t2 := some u.pc, sock := u.sock }

/-- One step of `receive_data_synch(remote_sock, client_sock, duplicate_destination_sock)`. -/
def receiveDataSynch (k : ℕ) : Option State :=
  s.t2.bind fun pc => ((s.replier pc).receiveDataSynch k).map s.replied

/-- One step of `handle_client`; without `-a` it forks `T1` and `T2` only. -/
def handlerStep : Option State :=
  match s.handler with
  | .fork .t1 :: ops => some { s with handler := ops, t1 := some .read }
  | .fork .t2 :: ops => some { s with handler := ops, t2 := some .read }
  | .fork .t3 :: _ => none
  | .fork .t4 :: _ => none
  | .close _ :: ops => some { s with handler := ops }
  | [] => none

/-- A peer acts. -/
def acted (i : SockId) (ev : Sock.Peer) (x : Sock) : State :=
  { s with
    sock := Function.update s.sock i x
    said := Function.update s.said i (s.said i ++ ev.payload) }

end State

/-- What can happen: a peer acts, `handle_client` or a worker takes a step. -/
inductive Act
  | peer (i : SockId) (ev : Sock.Peer)
  | handler
  | forward (k : ℕ)
  | reply (k : ℕ)
  deriving DecidableEq, Repr

/-- The machine of one handled client in synchronous mode. -/
def lockstep : Machine State Act where
  step s
    | .peer i ev => ((s.sock i).peer ev).map fun x => s.acted i ev x
    | .handler => s.handlerStep
    | .forward k => s.forwardDataSynch k
    | .reply k => s.receiveDataSynch k

/-- `handle_client` is about to fork its workers. -/
def handling (w : SockId → Sock) : State where
  handler := handleClient false
  t1 := none
  t2 := none
  sock := w
  got := []
  said i := (w i).inq

/-! ### What a step can do -/

/-- What a step can do. -/
inductive Trans (s : State) : Act → State → Prop
  | peer {i : SockId} {ev : Sock.Peer} {x : Sock} (h : (s.sock i).peer ev = some x) :
      Trans s (.peer i ev) (s.acted i ev x)
  | forkT1 {ops : List HandlerOp} (h : s.handler = .fork .t1 :: ops) :
      Trans s .handler { s with handler := ops, t1 := some .read }
  | forkT2 {ops : List HandlerOp} (h : s.handler = .fork .t2 :: ops) :
      Trans s .handler { s with handler := ops, t2 := some .read }
  | close {i : SockId} {ops : List HandlerOp} (h : s.handler = .close i :: ops) :
      Trans s .handler { s with handler := ops }
  | read {k : ℕ} {r : Ret} {x : Sock} (hpc : s.t1 = some .read)
      (h : (s.sock .client).recv bufSize k = some (r, x)) :
      Trans s (.forward k)
        { s.goto .client x (State.afterRead r) with got := s.got ++ Synch.data r }
  | sendRemote {k : ℕ} {buffer rest : List Byte} {r : Sock.Sending} {x : Sock}
      (hpc : s.t1 = some (.sendRemote buffer rest))
      (h : (s.sock .remote).send k buffer rest = some (r, x)) :
      Trans s (.forward k) (s.goto .remote x (State.afterRemote buffer r))
  | sendDuplicate {k : ℕ} {buffer rest : List Byte} {r : Sock.Sending} {x : Sock}
      (hpc : s.t1 = some (.sendDuplicate buffer rest))
      (h : (s.sock .duplicate).send k buffer rest = some (r, x)) :
      Trans s (.forward k) (s.goto .duplicate x (State.afterDuplicate buffer r))
  | cleanup {k : ℕ} {op : Op SockId} {ops : List (Op SockId)}
      (hpc : s.t1 = some (.cleanup (op :: ops))) : Trans s (.forward k) (s.apply ops op)
  | reply {k : ℕ} {pc : Synch.Pc} {u : Synch.State} (hpc : s.t2 = some pc)
      (h : Synch.Trans (s.replier pc) (.step k) u) : Trans s (.reply k) (s.replied u)

section Trans

variable {s t : State} {a : Act}

/-- **Inversion of a step.** -/
theorem trans_of_step (h : lockstep.step s a = some t) : Trans s a t := by
  cases a with
  | peer i ev =>
    obtain ⟨x, hx, rfl⟩ := Option.map_eq_some_iff.mp h
    exact .peer hx
  | handler =>
    change s.handlerStep = some t at h
    unfold State.handlerStep at h
    split at h
    · next hops => exact Option.some.inj h ▸ .forkT1 hops
    · next hops => exact Option.some.inj h ▸ .forkT2 hops
    · cases h
    · cases h
    · next hops => exact Option.some.inj h ▸ .close hops
    · cases h
  | forward k =>
    change s.forwardDataSynch k = some t at h
    unfold State.forwardDataSynch at h
    split at h
    · next hpc =>
      obtain ⟨⟨r, x⟩, hx, rfl⟩ := Option.map_eq_some_iff.mp h
      exact .read hpc hx
    · next hpc =>
      obtain ⟨⟨r, x⟩, hx, rfl⟩ := Option.map_eq_some_iff.mp h
      exact .sendRemote hpc hx
    · next hpc =>
      obtain ⟨⟨r, x⟩, hx, rfl⟩ := Option.map_eq_some_iff.mp h
      exact .sendDuplicate hpc hx
    · next hpc => exact Option.some.inj h ▸ .cleanup hpc
    · cases h
    · cases h
    · cases h
  | reply k =>
    obtain ⟨pc, hpc, h⟩ := Option.bind_eq_some_iff.mp h
    obtain ⟨u, hu, rfl⟩ := Option.map_eq_some_iff.mp h
    exact .reply hpc (Synch.trans_of_step hu)

end Trans

/-! ### Behind the loops -/

/-- What is left of the calls `all`: a socket whose `shutdown` is not among them has been shut
down. -/
structure Shutting (all ops : List (Op SockId)) (sock : SockId → Sock) : Prop where
  suffix : ops <:+ all
  shut : ∀ i, Op.shutdown i ∈ ops ∨ (sock i).shut = true

/-- What holds at each place of `T2`: it has something to send or to ask for, the client is gone if
`SIGPIPE` has ended it, and behind its loop it shuts all connections down. -/
def Replying (sock : SockId → Sock) : Synch.Pc → Prop
  | .read => True
  | .send buffer rest => rest ≠ [] ∧ rest.length ≤ buffer.length
  | .discard n => 0 < n
  | .cleanup ops => Shutting Synch.closing ops sock
  | .killed => (sock .client).Closed

/-- A worker is behind its loop, and not killed. -/
def Behind (s : State) : Prop :=
  (∃ ops, s.t1 = some (.cleanup ops)) ∨ ∃ ops, s.t2 = some (.cleanup ops)

/-- The invariant of `handle_client` and of the ends of the workers. -/
structure Closings (s : State) : Prop where
  handler : s.handler <:+ handleClient false
  t1 : HandlerOp.fork .t1 ∈ s.handler ↔ s.t1 = none
  t2 : HandlerOp.fork .t2 ∈ s.handler ↔ s.t2 = none
  forward : ∀ ops, s.t1 = some (.cleanup ops) → Shutting closing ops s.sock
  reply : ∀ pc, s.t2 = some pc → Replying s.sock pc
  shut : ∀ i, (s.sock i).shut = true → Behind s

section Reply

variable {v u : Synch.State} {k : ℕ}

/-- What `receive_data_synch` does to a socket. -/
theorem reply_sock (h : Synch.Trans v (.step k) u) (j : SockId) :
    u.sock j = v.sock j ∨ (j ≠ .client ∧ ∃ len r, (v.sock j).recv len k = some (r, u.sock j)) ∨
      (j = .client ∧ ∃ b rest r, (v.sock j).send k b rest = some (r, u.sock j)) ∨
      ∃ ops, v.pc = .cleanup (.shutdown j :: ops) ∧ u.pc = .cleanup ops ∧
        u.sock j = (v.sock j).shutdown := by
  cases h with
  | @chunk _ bs x hpc hx =>
    obtain hsock | ⟨rfl, hsock⟩ := v.goto_cases .remote x (.send bs bs) j
    · exact Or.inl hsock
    · exact Or.inr (Or.inl ⟨by simp, _, _, hsock ▸ hx⟩)
  | @ended _ r x hpc hr hx =>
    obtain hsock | ⟨rfl, hsock⟩ := v.goto_cases .remote x (.cleanup Synch.closing) j
    · exact Or.inl hsock
    · exact Or.inr (Or.inl ⟨by simp, _, _, hsock ▸ hx⟩)
  | @send _ buffer rest r x hpc hx =>
    obtain hsock | ⟨rfl, hsock⟩ := v.goto_cases .client x (Synch.State.afterSend buffer r) j
    · exact Or.inl hsock
    · exact Or.inr (Or.inr (Or.inl ⟨rfl, _, _, _, hsock ▸ hx⟩))
  | @discard _ n r x hpc hx =>
    obtain hsock | ⟨rfl, hsock⟩ := v.goto_cases .duplicate x .read j
    · exact Or.inl hsock
    · exact Or.inr (Or.inl ⟨by simp, _, _, hsock ▸ hx⟩)
  | @cleanup _ op ops hpc =>
    cases op with
    | close i => exact Or.inl rfl
    | shutdown i =>
      obtain hsock | ⟨rfl, hsock⟩ := v.goto_cases i (v.sock i).shutdown (.cleanup ops) j
      · exact Or.inl hsock
      · exact Or.inr (Or.inr (Or.inr ⟨ops, hpc, rfl, hsock⟩))

/-- The connections to production and to the duplicate. -/
theorem reply_later (h : Synch.Trans v (.step k) u) {j : SockId} (hj : j ≠ .client) :
    Sock.Later (v.sock j) (u.sock j) := by
  obtain heq | ⟨-, len, r, hr⟩ | ⟨rfl, -⟩ | ⟨ops, -, -, heq⟩ := reply_sock h j
  · rw [heq]
    exact .refl _
  · exact .of_recv hr
  · exact absurd rfl hj
  · rw [heq]
    exact .of_shutdown _

theorem reply_inq (h : Synch.Trans v (.step k) u) :
    (u.sock .client).inq = (v.sock .client).inq := by
  obtain heq | ⟨hne, -⟩ | ⟨-, b, rest, r, hr⟩ | ⟨ops, -, -, heq⟩ := reply_sock h .client
  · rw [heq]
  · exact absurd rfl hne
  · rw [(Sock.send_eq hr).1]
  · rw [heq]
    rfl

/-- No connection is opened again. -/
theorem reply_mono (h : Synch.Trans v (.step k) u) (j : SockId) :
    ((v.sock j).shut = true → (u.sock j).shut = true) ∧
      ((v.sock j).Closed → (u.sock j).Closed) := by
  obtain heq | ⟨-, len, r, hr⟩ | ⟨-, b, rest, r, hr⟩ | ⟨ops, -, -, heq⟩ := reply_sock h j
  · rw [heq]
    exact ⟨id, id⟩
  · rw [(Sock.recv_eq hr).1]
    exact ⟨id, id⟩
  · rw [(Sock.send_eq hr).1]
    exact ⟨id, id⟩
  · rw [heq]
    exact ⟨fun _ => rfl, fun _ => Or.inl rfl⟩

/-- Connections are shut down behind the loop only. -/
theorem reply_shut (h : Synch.Trans v (.step k) u) {j : SockId} (hj : (u.sock j).shut = true) :
    (v.sock j).shut = true ∨ ∃ ops, v.pc = .cleanup (.shutdown j :: ops) := by
  obtain heq | ⟨-, len, r, hr⟩ | ⟨-, b, rest, r, hr⟩ | ⟨ops, hpc, -, -⟩ := reply_sock h j
  · exact Or.inl (heq ▸ hj)
  · rw [(Sock.recv_eq hr).1] at hj
    exact Or.inl hj
  · rw [(Sock.send_eq hr).1] at hj
    exact Or.inl hj
  · exact Or.inr ⟨ops, hpc⟩

end Reply

section Shutting

variable {all ops : List (Op SockId)} {op : Op SockId} {sock sock' : SockId → Sock}

theorem Shutting.mono (h : Shutting all ops sock)
    (hmono : ∀ i, (sock i).shut = true → (sock' i).shut = true) : Shutting all ops sock' :=
  ⟨h.suffix, fun i => (h.shut i).imp_right (hmono i)⟩

/-- One more call. -/
theorem Shutting.next (h : Shutting all (op :: ops) sock)
    (hmono : ∀ i, (sock i).shut = true → (sock' i).shut = true)
    (hop : ∀ i, op = .shutdown i → (sock' i).shut = true) : Shutting all ops sock' := by
  refine ⟨(List.suffix_cons op ops).trans h.suffix, fun i => ?_⟩
  rcases h.shut i with hmem | hshut
  · rcases List.mem_cons.mp hmem with heq | hmem
    · exact Or.inr (hop i heq.symm)
    · exact Or.inl hmem
  · exact Or.inr (hmono i hshut)

theorem Shutting.forward (sock : SockId → Sock) : Shutting closing closing sock :=
  ⟨List.suffix_rfl, fun i => Or.inl (by cases i <;> decide)⟩

theorem Shutting.reply (sock : SockId → Sock) : Shutting Synch.closing Synch.closing sock :=
  ⟨List.suffix_rfl, fun i => Or.inl (by cases i <;> decide)⟩

theorem Shutting.all_shut (h : Shutting all [] sock) (i : SockId) : (sock i).shut = true :=
  (h.shut i).resolve_left List.not_mem_nil

/-- `T2` shuts the connection to the duplicate down before the one to production. -/
theorem Shutting.duplicate_first (h : Shutting Synch.closing (.shutdown .remote :: ops) sock) :
    (sock .duplicate).shut = true := by
  refine (h.shut .duplicate).resolve_left fun hmem => ?_
  have hops := h.suffix
  simp only [Synch.closing, List.suffix_cons_iff, List.cons.injEq, Op.shutdown.injEq,
    reduceCtorEq, false_and, List.suffix_nil, or_false, false_or, true_and] at hops
  rw [hops] at hmem
  simp at hmem

end Shutting

namespace Replying

variable {sock sock' : SockId → Sock} {pc : Synch.Pc} {v u : Synch.State} {k : ℕ}

theorem mono (h : Replying sock pc) (hmono : ∀ i, (sock i).shut = true → (sock' i).shut = true)
    (hclient : (sock .client).Closed → (sock' .client).Closed) : Replying sock' pc := by
  cases pc with
  | cleanup ops => exact Shutting.mono h hmono
  | killed => exact hclient h
  | _ => exact h

/-- What `T2` does next. -/
theorem step (h : Replying v.sock v.pc) (htrans : Synch.Trans v (.step k) u) :
    Replying u.sock u.pc := by
  have hmono (i : SockId) := (reply_mono htrans i).1
  cases htrans with
  | chunk hpc hx => exact ⟨(Sock.recv_bytes hx).1, le_rfl⟩
  | ended hpc hr hx => exact Shutting.reply _
  | @send _ buffer rest r x hpc hx =>
    rw [hpc] at h
    cases r with
    | more rest' =>
      obtain ⟨hne, hle⟩ := Sock.send_more hx
      exact ⟨hne, hle.trans h.2⟩
    | returned => exact (List.length_pos_iff.mpr h.1).trans_le h.2
    | sigpipe =>
      obtain ⟨rfl, hclosed⟩ := Sock.send_sigpipe hx
      change ((v.goto .client (v.sock .client) .killed).sock .client).Closed
      rwa [Synch.State.goto_sock_self]
  | discard hpc hx => trivial
  | @cleanup _ op ops hpc =>
    rw [hpc] at h
    cases op with
    | close i => exact Shutting.next h hmono (by simp)
    | shutdown i =>
      refine Shutting.next h hmono fun j hj => ?_
      obtain rfl := Op.shutdown.inj hj
      rw [Synch.State.apply, Synch.State.goto_sock_self]
      rfl

end Replying

namespace State

variable (s : State) (i j : SockId) (x : Sock)

/-- A call of `T1` leaves the other sockets as they are. -/
theorem goto_cases (pc : Pc) : (s.goto i x pc).sock j = s.sock j ∨ j = i ∧
    (s.goto i x pc).sock j = x := by
  by_cases hj : j = i
  · subst hj
    exact Or.inr ⟨rfl, Function.update_self ..⟩
  · exact Or.inl (Function.update_of_ne hj ..)

theorem acted_cases (ev : Sock.Peer) : (s.acted i ev x).sock j = s.sock j ∧
    (s.acted i ev x).said j = s.said j ∨ j = i ∧ (s.acted i ev x).sock j = x ∧
      (s.acted i ev x).said j = s.said j ++ ev.payload := by
  by_cases hj : j = i
  · subst hj
    exact Or.inr ⟨rfl, Function.update_self .., Function.update_self ..⟩
  · exact Or.inl ⟨Function.update_of_ne hj .., Function.update_of_ne hj ..⟩

@[simp] theorem goto_sock_self (pc : Pc) : (s.goto i x pc).sock i = x := Function.update_self ..

theorem goto_sock_of_ne (pc : Pc) {i j : SockId} (h : j ≠ i) :
    (s.goto i x pc).sock j = s.sock j := Function.update_of_ne h ..

end State

section Shut

variable {s t : State} {a : Act}

/-- What `T1` does to a socket. -/
theorem forward_sock {k : ℕ} (h : Trans s (.forward k) t) (j : SockId) :
    t.sock j = s.sock j ∨ (j = .client ∧ ∃ len r, (s.sock j).recv len k = some (r, t.sock j)) ∨
      (j ≠ .client ∧ ∃ b rest r, (s.sock j).send k b rest = some (r, t.sock j)) ∨
      ∃ ops, s.t1 = some (.cleanup (.shutdown j :: ops)) ∧ t.sock j = (s.sock j).shutdown := by
  cases h with
  | @read _ r x hpc hx =>
    obtain hsock | ⟨rfl, hsock⟩ := s.goto_cases .client j x (State.afterRead r)
    · exact Or.inl hsock
    · exact Or.inr (Or.inl ⟨rfl, _, _, hsock ▸ hx⟩)
  | @sendRemote _ buffer rest r x hpc hx =>
    obtain hsock | ⟨rfl, hsock⟩ := s.goto_cases .remote j x (State.afterRemote buffer r)
    · exact Or.inl hsock
    · exact Or.inr (Or.inr (Or.inl ⟨by simp, _, _, _, hsock ▸ hx⟩))
  | @sendDuplicate _ buffer rest r x hpc hx =>
    obtain hsock | ⟨rfl, hsock⟩ := s.goto_cases .duplicate j x (State.afterDuplicate buffer r)
    · exact Or.inl hsock
    · exact Or.inr (Or.inr (Or.inl ⟨by simp, _, _, _, hsock ▸ hx⟩))
  | @cleanup _ op ops hpc =>
    cases op with
    | close i => exact Or.inl rfl
    | shutdown i =>
      obtain hsock | ⟨rfl, hsock⟩ := s.goto_cases i j (s.sock i).shutdown (.cleanup ops)
      · exact Or.inl hsock
      · exact Or.inr (Or.inr (Or.inr ⟨ops, hpc, hsock⟩))

/-- No connection is opened again. -/
theorem step_mono (h : Trans s a t) (j : SockId) :
    ((s.sock j).shut = true → (t.sock j).shut = true) ∧
      ((s.sock j).Closed → (t.sock j).Closed) := by
  cases a with
  | peer i ev =>
    cases h with
    | @peer _ _ x hx =>
      obtain ⟨hsock, -⟩ | ⟨rfl, hsock, -⟩ := s.acted_cases i j x ev
      · rw [hsock]
        exact ⟨id, id⟩
      · rw [hsock, (Sock.peer_eq hx).2]
        exact ⟨id, fun hclosed => hclosed.peer hx⟩
  | handler => cases h <;> exact ⟨id, id⟩
  | forward k =>
    obtain heq | ⟨-, len, r, hr⟩ | ⟨-, b, rest, r, hr⟩ | ⟨ops, -, heq⟩ := forward_sock h j
    · rw [heq]
      exact ⟨id, id⟩
    · rw [(Sock.recv_eq hr).1]
      exact ⟨id, id⟩
    · rw [(Sock.send_eq hr).1]
      exact ⟨id, id⟩
    · rw [heq]
      exact ⟨fun _ => rfl, fun _ => Or.inl rfl⟩
  | reply k =>
    cases h with
    | reply hpc hu => exact reply_mono hu j

/-- Connections are shut down behind the loops only. -/
theorem step_shut (h : Trans s a t) {j : SockId} (hj : (t.sock j).shut = true) :
    (s.sock j).shut = true ∨ Behind s := by
  cases a with
  | peer i ev =>
    cases h with
    | @peer _ _ x hx =>
      obtain ⟨hsock, -⟩ | ⟨rfl, hsock, -⟩ := s.acted_cases i j x ev
      · exact Or.inl (hsock ▸ hj)
      · rw [hsock, (Sock.peer_eq hx).2] at hj
        exact Or.inl hj
  | handler => cases h <;> exact Or.inl hj
  | forward k =>
    obtain heq | ⟨-, len, r, hr⟩ | ⟨-, b, rest, r, hr⟩ | ⟨ops, hpc, -⟩ := forward_sock h j
    · exact Or.inl (heq ▸ hj)
    · rw [(Sock.recv_eq hr).1] at hj
      exact Or.inl hj
    · rw [(Sock.send_eq hr).1] at hj
      exact Or.inl hj
    · exact Or.inr (Or.inl ⟨_, hpc⟩)
  | reply k =>
    cases h with
    | @reply _ pc u hpc hu =>
      exact (reply_shut hu hj).imp_right fun ⟨ops, hops⟩ =>
        Or.inr ⟨Op.shutdown j :: ops, hpc.trans (congrArg some hops)⟩

end Shut

namespace Closings

variable {s t : State} {a : Act} {w : SockId → Sock}

theorem handling (hw : ∀ i, (w i).Fresh) : Closings (handling w) where
  handler := List.suffix_rfl
  t1 := by simp [Lockstep.handling, handleClient]
  t2 := by simp [Lockstep.handling, handleClient]
  forward ops h := by cases h
  reply pc h := by cases h
  shut i h := by
    rw [Lockstep.handling, (hw i).shut] at h
    cases h

/-- `handle_client` forks `T1` first, and both once. -/
theorem forks (h : Closings s) {i : Tid} {ops : List HandlerOp}
    (hops : s.handler = .fork i :: ops) :
    ops <:+ handleClient false ∧
      (i = .t1 → HandlerOp.fork .t1 ∉ ops ∧ HandlerOp.fork .t2 ∈ ops) ∧
      (i = .t2 → HandlerOp.fork .t1 ∉ ops ∧ HandlerOp.fork .t2 ∉ ops) := by
  have hsuffix := h.handler
  rw [hops] at hsuffix
  refine ⟨(List.suffix_cons _ _).trans hsuffix, ?_⟩
  simp only [handleClient, List.suffix_cons_iff, List.cons.injEq, HandlerOp.fork.injEq,
    reduceCtorEq, false_and, List.suffix_nil, or_false] at hsuffix
  rcases hsuffix with ⟨rfl, rfl⟩ | ⟨rfl, rfl⟩
  · exact ⟨fun _ => by simp, fun h => absurd h (by simp)⟩
  · exact ⟨fun h => absurd h (by simp), fun _ => by simp⟩

/-- A worker behind its loop stays there. -/
theorem behind (h : Closings s) (htrans : Trans s a t) (hs : Behind s) : Behind t := by
  cases htrans with
  | peer hx => exact hs
  | forkT1 hops =>
    have hnone := h.t1.mp (by rw [hops]; exact List.mem_cons_self)
    rcases hs with ⟨ops, hpc⟩ | hs
    · rw [hnone] at hpc
      cases hpc
    · exact Or.inr hs
  | forkT2 hops =>
    have hnone := h.t2.mp (by rw [hops]; exact List.mem_cons_self)
    rcases hs with hs | ⟨ops, hpc⟩
    · exact Or.inl hs
    · rw [hnone] at hpc
      cases hpc
  | close hops => exact hs
  | read hpc hx =>
    refine hs.imp_left fun ⟨ops, hpc'⟩ => ?_
    cases hpc.symm.trans hpc'
  | sendRemote hpc hx =>
    refine hs.imp_left fun ⟨ops, hpc'⟩ => ?_
    cases hpc.symm.trans hpc'
  | sendDuplicate hpc hx =>
    refine hs.imp_left fun ⟨ops, hpc'⟩ => ?_
    cases hpc.symm.trans hpc'
  | @cleanup _ op ops hpc => cases op <;> exact Or.inl ⟨ops, rfl⟩
  | @reply _ pc u hpc hu =>
    refine hs.imp_right fun ⟨ops, hpc'⟩ => ?_
    obtain rfl := Option.some.inj (hpc.symm.trans hpc')
    cases hu with
    | chunk hpc => cases hpc
    | ended hpc => cases hpc
    | send hpc => cases hpc
    | discard hpc => cases hpc
    | @cleanup _ op ops hpc => cases op <;> exact ⟨ops, rfl⟩

/-- `T1` is behind its loop after a step of its own only if it has come to the end of its source, or
has issued one more call. -/
theorem forward_step {k : ℕ} {ops : List (Op SockId)} (h : Closings s)
    (htrans : Trans s (.forward k) t) (hops : t.t1 = some (.cleanup ops)) :
    Shutting closing ops t.sock := by
  have hmono (i : SockId) := (step_mono htrans i).1
  cases htrans with
  | @read _ r x hpc hx =>
    have hall : ops = closing := by
      cases r <;> simp [State.goto, State.afterRead] at hops <;> exact hops.symm
    rw [hall]
    exact .forward _
  | @sendRemote _ buffer rest r x hpc hx => cases r <;> simp [State.goto, State.afterRemote] at hops
  | @sendDuplicate _ buffer rest r x hpc hx =>
    cases r <;> simp [State.goto, State.afterDuplicate] at hops
  | @cleanup _ op ops' hpc =>
    obtain rfl : ops' = ops := by
      cases op <;> exact Pc.cleanup.inj (Option.some.inj hops)
    refine (h.forward _ hpc).next hmono fun i hi => ?_
    subst hi
    rw [State.apply, State.goto_sock_self]
    rfl

/-- A step that leaves the workers at their places. -/
theorem frame (h : Closings s) (htrans : Trans s a t) (hhandler : t.handler = s.handler)
    (ht1 : t.t1 = s.t1) (ht2 : t.t2 = s.t2) : Closings t := by
  have hmono (i : SockId) := (step_mono htrans i).1
  refine ⟨hhandler ▸ h.handler, by rw [hhandler, ht1, h.t1], by rw [hhandler, ht2, h.t2],
    fun ops hops => (h.forward ops (ht1 ▸ hops)).mono hmono,
    fun pc hpc => (h.reply pc (ht2 ▸ hpc)).mono hmono (step_mono htrans .client).2,
    fun i hi => h.behind htrans ?_⟩
  exact (step_shut htrans hi).elim (h.shut i) id

/-- **The invariant of the ends.** -/
theorem step (h : Closings s) (hstep : lockstep.step s a = some t) : Closings t := by
  have htrans := trans_of_step hstep
  have hshut (i : SockId) (hi : (t.sock i).shut = true) : Behind t :=
    h.behind htrans ((step_shut htrans hi).elim (h.shut i) id)
  cases a with
  | peer i ev =>
    cases htrans with
    | peer hx => exact h.frame (.peer hx) rfl rfl rfl
  | handler =>
    cases htrans with
    | forkT1 hops =>
      obtain ⟨hsuffix, hfork, -⟩ := h.forks hops
      have ht2 := h.t2
      simp only [hops, List.mem_cons, HandlerOp.fork.injEq, reduceCtorEq, false_or] at ht2
      exact ⟨hsuffix, by simp [(hfork rfl).1], ht2, fun ops' h' => absurd h' (by simp),
        h.reply, hshut⟩
    | forkT2 hops =>
      obtain ⟨hsuffix, -, hfork⟩ := h.forks hops
      have ht1 := h.t1
      simp only [hops, List.mem_cons, HandlerOp.fork.injEq, reduceCtorEq, false_or] at ht1
      refine ⟨hsuffix, ht1, by simp [(hfork rfl).2], h.forward, fun pc hpc => ?_, hshut⟩
      obtain rfl := Option.some.inj hpc
      trivial
    | close hops =>
      have hsuffix := h.handler
      have ht1 := h.t1
      have ht2 := h.t2
      rw [hops] at hsuffix
      simp only [hops, List.mem_cons, reduceCtorEq, false_or] at ht1 ht2
      exact ⟨(List.suffix_cons _ _).trans hsuffix, ht1, ht2, h.forward, h.reply, hshut⟩
  | forward k =>
    have hmono (i : SockId) := (step_mono htrans i).1
    have hrest : t.handler = s.handler ∧ t.t2 = s.t2 ∧ s.t1 ≠ none ∧ t.t1 ≠ none := by
      cases htrans with
      | read hpc hx => exact ⟨rfl, rfl, by simp [hpc], by simp [State.goto]⟩
      | sendRemote hpc hx => exact ⟨rfl, rfl, by simp [hpc], by simp [State.goto]⟩
      | sendDuplicate hpc hx => exact ⟨rfl, rfl, by simp [hpc], by simp [State.goto]⟩
      | @cleanup _ op ops hpc =>
        cases op <;> exact ⟨rfl, rfl, by simp [hpc], by simp [State.apply, State.goto]⟩
    obtain ⟨hhandler, ht2, hs, ht⟩ := hrest
    refine ⟨hhandler ▸ h.handler, ?_, by rw [hhandler, ht2, h.t2],
      fun ops hops => h.forward_step htrans hops,
      fun pc hpc => (h.reply pc (ht2 ▸ hpc)).mono hmono (step_mono htrans .client).2, hshut⟩
    rw [hhandler, h.t1]
    exact iff_of_false hs ht
  | reply k =>
    have hmono (i : SockId) := (step_mono htrans i).1
    cases htrans with
    | @reply _ pc u hpc hu =>
      refine ⟨h.handler, h.t1, ?_, fun ops hops => (h.forward ops hops).mono hmono,
        fun pc' hpc' => ?_, hshut⟩
      · change HandlerOp.fork .t2 ∈ s.handler ↔ some u.pc = none
        rw [h.t2, hpc]
        exact iff_of_false (by simp) (by simp)
      · obtain rfl := Option.some.inj hpc'
        exact Replying.step (v := s.replier pc) (h.reply pc hpc) hu

end Closings

end Parikshan.Duplicator.Lockstep
