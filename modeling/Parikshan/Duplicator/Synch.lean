import Parikshan.Duplicator.Model

/-!
# Replies in synchronous mode

In synchronous mode `T2` runs `receive_data_synch`: a chunk of production's reply is sent to the
client, and then as many bytes are asked of the duplicate, in a single `recv` whose result is
compared with that number and not used otherwise. A connection to the duplicate on which fewer
bytes have arrived gives fewer, and they are never asked for again.

The function is run beside its three peers, each of which may do anything at any time. A message is
left out, and so is what the `close` calls do: other processes hold the sockets as well.

## Main definitions

* `receiveDataSynch`: one step of `receive_data_synch`.
* `synchronous`: the machine of the function and its peers.
* `Coupled`: what ties the three streams inside the loop.
* `InStep`: as many bytes have been taken from the duplicate as have gone to the client.

## Main results

* `receiveDataSynch_served`: the function does not wait for the duplicate in vain.
* `along_takesWhole_iff`: when the replies of the duplicate are drained in step.
-/

namespace Parikshan.Duplicator.Synch

open Posix

/-- What the function does after its loop, lines 508–521. -/
def closing : List (Op SockId) :=
  [.shutdown .client, .close .client, .shutdown .duplicate, .close .duplicate, .shutdown .remote,
    .close .remote]

/-- Where the function is: before `recv` from production, in `send` to the client with what is left
to be copied, before `recv` from the duplicate, or behind the loop. -/
inductive Pc
  | read
  | send (buffer rest : List Byte)
  | discard (n : ℕ)
  | cleanup (ops : List (Op SockId))
  | killed
  deriving DecidableEq, Repr

/-- The bytes of the chunk that have yet to be sent. -/
def Pc.pending : Pc → List Byte
  | .send _ rest => rest
  | _ => []

/-- The bytes that the function will ask of the duplicate for its present chunk. -/
def Pc.owed : Pc → ℕ
  | .send buffer _ => buffer.length
  | .discard n => n
  | _ => 0

/-- The function has not gone on from its loop. -/
def Pc.InLoop : Pc → Prop
  | .cleanup ops => ops = closing
  | .killed => False
  | _ => True

/-- The function with its sockets, the bytes that it has taken from the duplicate, and what the
peers have sent. -/
structure State where
  pc : Pc
  sock : SockId → Sock
  taken : List Byte
  replies : SockId → List Byte

/-- The data of a `recv`. -/
def data : Ret → List Byte
  | .bytes bs => bs
  | .eof => []
  | .error => []

/-- The data of a peer's action. -/
def reply : Sock.Peer → List Byte
  | .deliver bs => bs
  | _ => []

namespace State

variable (s : State)

/-- The bytes that have gone to the client. -/
def forwarded : List Byte := (s.sock .client).sent

/-- The function goes on, with a socket after a call. -/
def goto (i : SockId) (x : Sock) (pc : Pc) : State :=
  { s with sock := Function.update s.sock i x, pc := pc }

/-- A call behind the loop. -/
def apply (ops : List (Op SockId)) : Op SockId → State
  | .shutdown i => s.goto i (s.sock i).shutdown (.cleanup ops)
  | .close _ => { s with pc := .cleanup ops }

/-- What follows `recv` from production. -/
def afterRead : Ret → Pc
  | .bytes bs => .send bs bs
  | .eof => .cleanup closing
  | .error => .cleanup closing

/-- What follows a step of `send`. -/
def afterSend (buffer : List Byte) : Sock.Sending → Pc
  | .more rest => .send buffer rest
  | .returned => .discard buffer.length
  | .sigpipe => .killed

/-- One step of `receive_data_synch`, lines 492–523. -/
def receiveDataSynch (k : ℕ) : Option State :=
  match s.pc with
  | .read => ((s.sock .remote).recv bufSize k).map fun x => s.goto .remote x.2 (afterRead x.1)
  | .send buffer rest =>
    ((s.sock .client).send k buffer rest).map fun x => s.goto .client x.2 (afterSend buffer x.1)
  | .discard n =>
    ((s.sock .duplicate).recv n k).map fun x =>
      { s.goto .duplicate x.2 .read with taken := s.taken ++ data x.1 }
  | .cleanup (op :: ops) => some (s.apply ops op)
  | .cleanup [] => none
  | .killed => none

/-- A socket and the stream of its peer, after the peer has acted. -/
def acted (i : SockId) (ev : Sock.Peer) (x : Sock) : State :=
  { s with
    sock := Function.update s.sock i x
    replies := Function.update s.replies i (s.replies i ++ reply ev) }

/-- A peer acts. -/
def peer (i : SockId) (ev : Sock.Peer) : Option State :=
  ((s.sock i).peer ev).map fun x => s.acted i ev x

end State

/-- A step of the function or of a peer. -/
inductive Act
  | step (k : ℕ)
  | peer (i : SockId) (ev : Sock.Peer)
  deriving DecidableEq, Repr

/-- The machine of the function and its peers. -/
def synchronous : Machine State Act where
  step s
    | .step k => s.receiveDataSynch k
    | .peer i ev => s.peer i ev

/-- The function on its entry. -/
def start : State where
  pc := .read
  sock _ := {}
  taken := []
  replies _ := []

/-- What a step can do. -/
inductive Trans (s : State) : Act → State → Prop
  | peer {i : SockId} {ev : Sock.Peer} {x : Sock} (h : (s.sock i).peer ev = some x) :
      Trans s (.peer i ev) (s.acted i ev x)
  | chunk {k : ℕ} {bs : List Byte} {x : Sock} (hpc : s.pc = .read)
      (h : (s.sock .remote).recv bufSize k = some (.bytes bs, x)) :
      Trans s (.step k) (s.goto .remote x (.send bs bs))
  | ended {k : ℕ} {r : Ret} {x : Sock} (hpc : s.pc = .read) (hr : ∀ bs, r ≠ .bytes bs)
      (h : (s.sock .remote).recv bufSize k = some (r, x)) :
      Trans s (.step k) (s.goto .remote x (.cleanup closing))
  | send {k : ℕ} {buffer rest : List Byte} {r : Sock.Sending} {x : Sock}
      (hpc : s.pc = .send buffer rest)
      (h : (s.sock .client).send k buffer rest = some (r, x)) :
      Trans s (.step k) (s.goto .client x (State.afterSend buffer r))
  | discard {k n : ℕ} {r : Ret} {x : Sock} (hpc : s.pc = .discard n)
      (h : (s.sock .duplicate).recv n k = some (r, x)) :
      Trans s (.step k) { s.goto .duplicate x .read with taken := s.taken ++ data r }
  | cleanup {k : ℕ} {op : Op SockId} {ops : List (Op SockId)} (hpc : s.pc = .cleanup (op :: ops)) :
      Trans s (.step k) (s.apply ops op)

section Trans

variable {s t : State} {a : Act}

/-- **Inversion of a step.** -/
theorem trans_of_step (h : synchronous.step s a = some t) : Trans s a t := by
  cases a with
  | peer i ev =>
    obtain ⟨x, hx, rfl⟩ := Option.map_eq_some_iff.mp h
    exact .peer hx
  | step k =>
    change s.receiveDataSynch k = some t at h
    unfold State.receiveDataSynch at h
    split at h
    · next hpc =>
      obtain ⟨⟨r, x⟩, hx, rfl⟩ := Option.map_eq_some_iff.mp h
      cases r with
      | bytes bs => exact .chunk hpc hx
      | eof => exact .ended hpc (by simp) hx
      | error => exact .ended hpc (by simp) hx
    · next hpc =>
      obtain ⟨⟨r, x⟩, hx, rfl⟩ := Option.map_eq_some_iff.mp h
      exact .send hpc hx
    · next hpc =>
      obtain ⟨⟨r, x⟩, hx, rfl⟩ := Option.map_eq_some_iff.mp h
      exact .discard hpc hx
    · next hpc =>
      cases h
      exact .cleanup hpc
    · cases h
    · cases h

end Trans

/-! ### The streams inside the loop -/

/-- The peer has closed or reset the connection. -/
def Ended (x : Sock) : Prop := x.fin = true ∨ x.rst = true

/-- What ties the streams inside the loop: production's reply is what has gone to the client, the
rest of the chunk and what has yet to be received; the duplicate's is what has been taken and what
has yet to be; and what is taken does not get ahead of the chunks before the present one. -/
structure Coupled (s : State) : Prop where
  shut : ∀ i, (s.sock i).shut = false
  produced : s.replies .remote = s.forwarded ++ s.pc.pending ++ (s.sock .remote).inq
  echoed : s.replies .duplicate = s.taken ++ (s.sock .duplicate).inq
  lag : s.taken.length + s.pc.owed ≤ s.forwarded.length + s.pc.pending.length
  owed : (∀ buffer rest, s.pc = .send buffer rest → 0 < s.pc.owed) ∧
    ∀ n, s.pc = .discard n → 0 < s.pc.owed

/-- The invariant of the runs in which the client does not reset its connection. -/
structure Serving (s : State) : Prop where
  coupled : s.pc.InLoop → Coupled s
  ended : ∀ ops, s.pc = .cleanup ops → ops.length ≤ closing.length ∧
    s.forwarded = s.replies .remote ∧ Ended (s.sock .remote)
  connected : (s.sock .client).rst = false
  error : ∀ i, (s.sock i).err = true → (s.sock i).rst = true
  alive : s.pc ≠ .killed

/-! ### What a peer can do -/

section Peer

variable {x y : Sock} {ev : Sock.Peer}

/-- What a peer sends arrives, unless the socket has been shut down. -/
theorem inq_of_peer (h : x.peer ev = some y) (hshut : x.shut = false) :
    y.inq = x.inq ++ reply ev := by
  cases ev with
  | deliver bs =>
    simp only [Sock.peer, hshut, Bool.false_eq_true, if_false] at h
    split_ifs at h
    obtain rfl := Option.some.inj h
    rfl
  | drain k =>
    obtain rfl := Option.some.inj h
    exact (List.append_nil _).symm
  | _ =>
    simp only [Sock.peer] at h
    split_ifs at h
    obtain rfl := Option.some.inj h
    exact (List.append_nil _).symm

/-- A peer that has closed its connection sends nothing, and it does not open it again. -/
theorem Ended.peer (hx : Ended x) (h : x.peer ev = some y) : reply ev = [] ∧ Ended y := by
  cases ev with
  | deliver bs =>
    have hcond : (x.fin || x.rst) = true := by simpa [Ended] using hx
    simp [Sock.peer, hcond] at h
  | drain k =>
    obtain rfl := Option.some.inj h
    exact ⟨rfl, hx⟩
  | fin =>
    simp only [Sock.peer] at h
    split_ifs at h
    obtain rfl := Option.some.inj h
    exact ⟨rfl, Or.inl rfl⟩
  | reset =>
    simp only [Sock.peer] at h
    split_ifs at h
    obtain rfl := Option.some.inj h
    exact ⟨rfl, Or.inr rfl⟩

/-- An error is pending only on a connection that has been reset, which only `reset` does. -/
theorem rst_of_peer (h : x.peer ev = some y) :
    ((x.err = true → x.rst = true) → y.err = true → y.rst = true) ∧
      (ev ≠ .reset → y.rst = x.rst) := by
  cases ev with
  | drain k =>
    obtain rfl := Option.some.inj h
    exact ⟨id, fun _ => rfl⟩
  | reset =>
    simp only [Sock.peer] at h
    split_ifs at h
    obtain rfl := Option.some.inj h
    exact ⟨fun _ _ => rfl, fun hne => absurd rfl hne⟩
  | _ =>
    simp only [Sock.peer] at h
    split_ifs at h <;> obtain rfl := Option.some.inj h <;> exact ⟨id, fun _ => rfl⟩

theorem forwarded_of_issued (h : y.issued = x.issued) : y.sent = x.sent := by
  rw [Sock.sent, h, Sock.sent]

end Peer

/-! ### The invariant -/

section Serving

variable {s t : State} {a : Act} {i : SockId} {ev : Sock.Peer} {x : Sock}

theorem Serving.start : Serving start where
  coupled _ := ⟨fun _ => rfl, rfl, rfl, le_rfl, by simp [Synch.start], by simp [Synch.start]⟩
  ended ops h := by cases h
  connected := rfl
  error _ h := h
  alive := by simp [Synch.start]

@[simp] theorem State.goto_pc (s : State) (pc : Pc) : (s.goto i x pc).pc = pc := rfl

@[simp] theorem State.goto_taken (s : State) (pc : Pc) : (s.goto i x pc).taken = s.taken := rfl

@[simp] theorem State.goto_replies (s : State) (pc : Pc) : (s.goto i x pc).replies = s.replies :=
  rfl

@[simp] theorem State.goto_sock_self (s : State) (pc : Pc) : (s.goto i x pc).sock i = x :=
  Function.update_self ..

theorem State.goto_sock_of_ne (s : State) (pc : Pc) {j : SockId} (h : j ≠ i) :
    (s.goto i x pc).sock j = s.sock j :=
  Function.update_of_ne h ..

@[simp] theorem State.acted_pc (s : State) : (s.acted i ev x).pc = s.pc := rfl

@[simp] theorem State.acted_taken (s : State) : (s.acted i ev x).taken = s.taken := rfl

/-- A peer acts on its own socket and its own stream. -/
theorem State.acted_cases (s : State) (i : SockId) (ev : Sock.Peer) (x : Sock) (j : SockId) :
    (s.acted i ev x).sock j = s.sock j ∧ (s.acted i ev x).replies j = s.replies j ∨
      j = i ∧ (s.acted i ev x).sock j = x ∧
        (s.acted i ev x).replies j = s.replies j ++ reply ev := by
  by_cases hj : j = i
  · subst hj
    exact Or.inr ⟨rfl, Function.update_self .., Function.update_self ..⟩
  · exact Or.inl ⟨Function.update_of_ne hj .., Function.update_of_ne hj ..⟩

theorem State.acted_forwarded (s : State) (h : (s.sock i).peer ev = some x) :
    (s.acted i ev x).forwarded = s.forwarded := by
  obtain ⟨hsock, -⟩ | ⟨rfl, hsock, -⟩ := s.acted_cases i ev x .client
  · rw [forwarded, hsock, forwarded]
  · rw [forwarded, hsock, forwarded_of_issued (Sock.peer_eq h).1, forwarded]

/-- A peer keeps the coupling of the streams. -/
theorem Coupled.acted (hs : Coupled s) (h : (s.sock i).peer ev = some x) :
    Coupled (s.acted i ev x) := by
  -- a stream that is split at what has arrived stays so
  have hstream (j : SockId) (out : List Byte) (heq : s.replies j = out ++ (s.sock j).inq) :
      (s.acted i ev x).replies j = out ++ ((s.acted i ev x).sock j).inq := by
    obtain ⟨hsock, hreplies⟩ | ⟨rfl, hsock, hreplies⟩ := s.acted_cases i ev x j
    · rw [hsock, hreplies, heq]
    · rw [hsock, hreplies, heq, inq_of_peer h (hs.shut j), List.append_assoc]
  refine ⟨fun j => ?_, ?_, hstream .duplicate _ hs.echoed, ?_, hs.owed⟩
  · obtain ⟨hsock, -⟩ | ⟨rfl, hsock, -⟩ := s.acted_cases i ev x j
    · rw [hsock, hs.shut]
    · rw [hsock, (Sock.peer_eq h).2, hs.shut]
  · rw [s.acted_forwarded h, s.acted_pc]
    exact hstream .remote _ hs.produced
  · rw [s.acted_forwarded h]
    exact hs.lag

theorem Serving.acted (hs : Serving s) (ha : i = .client → ev ≠ .reset)
    (h : (s.sock i).peer ev = some x) : Serving (s.acted i ev x) := by
  refine ⟨fun hpc => (hs.coupled hpc).acted h, fun ops hpc => ?_, ?_, fun j => ?_, hs.alive⟩
  · obtain ⟨hops, hforwarded, hended⟩ := hs.ended ops hpc
    rw [s.acted_forwarded h]
    obtain ⟨hsock, hreplies⟩ | ⟨rfl, hsock, hreplies⟩ := s.acted_cases i ev x .remote
    · rw [hsock, hreplies]
      exact ⟨hops, hforwarded, hended⟩
    · obtain ⟨hnil, hx⟩ := hended.peer h
      rw [hsock, hreplies, hnil, List.append_nil]
      exact ⟨hops, hforwarded, hx⟩
  · obtain ⟨hsock, -⟩ | ⟨rfl, hsock, -⟩ := s.acted_cases i ev x .client
    · rw [hsock, hs.connected]
    · rw [hsock, (rst_of_peer h).2 (ha rfl), hs.connected]
  · obtain ⟨hsock, -⟩ | ⟨rfl, hsock, -⟩ := s.acted_cases i ev x j
    · rw [hsock]
      exact hs.error j
    · rw [hsock]
      exact (rst_of_peer h).1 (hs.error j)

/-- A call on a socket leaves the other sockets as they are. -/
theorem State.goto_cases (s : State) (i : SockId) (x : Sock) (pc : Pc) (j : SockId) :
    (s.goto i x pc).sock j = s.sock j ∨ j = i ∧ (s.goto i x pc).sock j = x := by
  by_cases hj : j = i
  · subst hj
    exact Or.inr ⟨rfl, Function.update_self ..⟩
  · exact Or.inl (Function.update_of_ne hj ..)

/-- A call that neither resets a connection nor reports an error keeps the invariant of errors. -/
theorem Serving.error_goto (hs : Serving s) (hrst : x.rst = (s.sock i).rst)
    (herr : x.err = (s.sock i).err ∨ x.err = false) (pc : Pc) (j : SockId) :
    ((s.goto i x pc).sock j).err = true → ((s.goto i x pc).sock j).rst = true := by
  obtain hsock | ⟨rfl, hsock⟩ := s.goto_cases i x pc j
  · rw [hsock]
    exact hs.error j
  · rw [hsock, hrst]
    rcases herr with herr | herr
    · rw [herr]
      exact hs.error j
    · rw [herr]
      exact fun h => absurd h (by simp)

theorem State.goto_forwarded (s : State) {pc : Pc} (h : i = .client → x.sent = s.forwarded) :
    (s.goto i x pc).forwarded = s.forwarded := by
  obtain hsock | ⟨hi, hsock⟩ := s.goto_cases i x pc .client
  · rw [forwarded, hsock, forwarded]
  · rw [forwarded, hsock, h hi.symm]

theorem State.goto_shut (s : State) (hs : ∀ j, (s.sock j).shut = false)
    (hx : x.shut = (s.sock i).shut) (pc : Pc) (j : SockId) :
    ((s.goto i x pc).sock j).shut = false := by
  obtain hsock | ⟨rfl, hsock⟩ := s.goto_cases i x pc j
  · rw [hsock, hs]
  · rw [hsock, hx, hs]

/-- `recv` from production returns a chunk. -/
theorem Serving.chunk (hs : Serving s) {k : ℕ} {bs : List Byte} (hpc : s.pc = .read)
    (h : (s.sock .remote).recv bufSize k = some (.bytes bs, x)) :
    Serving (s.goto .remote x (.send bs bs)) := by
  have hc := hs.coupled (by rw [hpc]; trivial)
  obtain ⟨hbs, -, hinq, heq⟩ := Sock.recv_bytes h
  have hforwarded : (s.goto .remote x (.send bs bs)).forwarded = s.forwarded :=
    s.goto_forwarded (by simp)
  have hproduced := hc.produced
  have hlag := hc.lag
  rw [hpc] at hproduced hlag
  refine ⟨fun _ => ⟨s.goto_shut hc.shut (by rw [heq]) _, ?_, ?_, ?_, ?_, by simp⟩, by simp, ?_,
    hs.error_goto (by rw [heq]) (Sock.recv_eq h).2 _, by simp⟩
  · rw [hforwarded, State.goto_replies, State.goto_sock_self, State.goto_pc, hproduced, hinq]
    simp [Pc.pending]
  · rw [State.goto_sock_of_ne _ _ (by simp)]
    exact hc.echoed
  · rw [hforwarded]
    exact Nat.add_le_add_right hlag bs.length
  · rintro buffer rest heq
    exact List.length_pos_iff.mpr hbs
  · rw [State.goto_sock_of_ne _ _ (by simp), hs.connected]

/-- `recv` from production returns no data. -/
theorem Serving.loopEnds (hs : Serving s) {k : ℕ} {r : Ret} (hpc : s.pc = .read)
    (hr : ∀ bs, r ≠ .bytes bs) (h : (s.sock .remote).recv bufSize k = some (r, x)) :
    Serving (s.goto .remote x (.cleanup closing)) := by
  have hc := hs.coupled (by rw [hpc]; trivial)
  obtain ⟨hinq, hended, heq⟩ := Sock.recv_end hr h
  have hforwarded : (s.goto .remote x (.cleanup closing)).forwarded = s.forwarded :=
    s.goto_forwarded (by simp)
  have hproduced := hc.produced
  have hlag := hc.lag
  rw [hpc] at hproduced hlag
  have hall : s.forwarded = s.replies .remote := by
    rw [hproduced, hinq]
    simp [Pc.pending]
  refine ⟨fun _ => ⟨s.goto_shut hc.shut (by rw [heq]) _, ?_, ?_, ?_, by simp⟩,
    fun ops hops => ?_, ?_,
    hs.error_goto (by rw [heq]) (Sock.recv_eq h).2 _, by simp⟩
  · rw [hforwarded, State.goto_sock_self, heq]
    simp [Pc.pending, hinq, hall]
  · rw [State.goto_sock_of_ne _ _ (by simp)]
    exact hc.echoed
  · rw [hforwarded]
    exact hlag
  · cases hops
    rw [hforwarded, State.goto_sock_self, heq]
    refine ⟨le_rfl, hall, ?_⟩
    rcases hended with herr | hfin | hrst | hshut
    · exact Or.inr (hs.error .remote herr)
    · exact Or.inl hfin
    · exact Or.inr hrst
    · exact absurd hshut (by rw [hc.shut]; simp)
  · rw [State.goto_sock_of_ne _ _ (by simp), hs.connected]

/-- A step of `send` goes on or returns; either way the chunk is still owed, and what was left to be
sent is split into what has been sent now and what is left. -/
theorem afterSend_cases {b rest : List Byte} {k : ℕ} {r : Sock.Sending}
    (h : r = .returned ∧ rest.take k = rest ∨ r = .more (rest.drop k) ∧ k < rest.length) :
    rest.take k ++ (State.afterSend b r).pending = rest ∧
      (State.afterSend b r).owed = b.length ∧ (State.afterSend b r).InLoop ∧
      ((∃ rest', State.afterSend b r = .send b rest') ∨
        State.afterSend b r = .discard b.length) := by
  rcases h with ⟨rfl, htake⟩ | ⟨rfl, -⟩
  · exact ⟨by simpa [State.afterSend, Pc.pending] using htake, rfl, trivial, Or.inr rfl⟩
  · exact ⟨List.take_append_drop k rest, rfl, trivial, Or.inl ⟨_, rfl⟩⟩

/-- A step of `send` to the client. -/
theorem Serving.send (hs : Serving s) {k : ℕ} {buffer rest : List Byte} {r : Sock.Sending}
    (hpc : s.pc = .send buffer rest) (h : (s.sock .client).send k buffer rest = some (r, x)) :
    Serving (s.goto .client x (State.afterSend buffer r)) := by
  have hc := hs.coupled (by rw [hpc]; trivial)
  obtain ⟨room, heq, hr⟩ := Sock.send_open (hc.shut .client) hs.connected h
  have hforwarded : (s.goto .client x (State.afterSend buffer r)).forwarded =
      s.forwarded ++ rest.take k := by
    rw [State.forwarded, State.goto_sock_self, heq, Sock.sent_append_bytes, State.forwarded]
  obtain ⟨hpending, howed, hloop, hnext⟩ := afterSend_cases (b := buffer) hr
  have hproduced := hc.produced
  have hlag := hc.lag
  have hpos := hc.owed.1 buffer rest hpc
  rw [hpc] at hproduced hlag hpos
  refine ⟨fun _ => ⟨s.goto_shut hc.shut (by rw [heq]) _, ?_, ?_, ?_, ?_⟩, fun ops hops => ?_, ?_,
    hs.error_goto (by rw [heq]) (Sock.send_eq h).2 _, fun hkilled => ?_⟩
  · rw [hforwarded, State.goto_pc, State.goto_replies, State.goto_sock_of_ne _ _ (by simp),
      List.append_assoc s.forwarded, hpending]
    exact hproduced
  · rw [State.goto_sock_of_ne _ _ (by simp)]
    exact hc.echoed
  · have hlen := congrArg List.length hpending
    rw [List.length_append] at hlen
    rw [hforwarded, State.goto_pc, State.goto_taken, howed, List.length_append]
    simp only [Pc.owed, Pc.pending] at hlag
    omega
  · rw [State.goto_pc, howed]
    exact ⟨fun _ _ _ => hpos, fun _ _ => hpos⟩
  · rw [State.goto_pc] at hops
    obtain ⟨rest', hsend⟩ | hdiscard := hnext
    · cases hsend.symm.trans hops
    · cases hdiscard.symm.trans hops
  · rw [State.goto_sock_self, heq]
    exact hs.connected
  · rw [State.goto_pc] at hkilled
    rw [hkilled] at hloop
    exact hloop

/-- `recv` from the duplicate takes a part of what has been asked for. -/
theorem recv_duplicate {y : Sock} {n k : ℕ} {r : Ret} (h : y.recv n k = some (r, x)) :
    y.inq = data r ++ x.inq ∧ (data r).length ≤ n ∧ (0 < (data r).length ∨ y.inq = []) := by
  cases r with
  | bytes bs =>
    obtain ⟨hbs, hle, hinq, -⟩ := Sock.recv_bytes h
    exact ⟨hinq, hle, Or.inl (List.length_pos_iff.mpr hbs)⟩
  | _ =>
    obtain ⟨hinq, -, heq⟩ := Sock.recv_end (by simp) h
    exact ⟨by rw [heq]; rfl, Nat.zero_le n, Or.inr hinq⟩

theorem length_data_of_recv {y : Sock} {n k : ℕ} {r : Ret} (h : y.recv n k = some (r, x))
    (hn : 0 < n) : (data r).length = n ↔ k = n ∧ n ≤ y.inq.length := by
  unfold Sock.recv at h
  split_ifs at h with hinq herr hend htake <;> obtain ⟨rfl, rfl⟩ := Prod.mk.inj (Option.some.inj h)
  · rw [hinq]
    exact iff_of_false hn.ne (by rw [List.length_nil]; omega)
  · rw [hinq]
    exact iff_of_false hn.ne (by rw [List.length_nil]; omega)
  · rw [data, List.length_take, Nat.min_eq_left htake.2.2]
    exact ⟨fun heq => ⟨heq, heq ▸ htake.2.2⟩, fun heq => heq.1⟩

/-- `recv` from the duplicate. -/
theorem Serving.discard (hs : Serving s) {k n : ℕ} {r : Ret} (hpc : s.pc = .discard n)
    (h : (s.sock .duplicate).recv n k = some (r, x)) :
    Serving { s.goto .duplicate x .read with taken := s.taken ++ data r } := by
  have hc := hs.coupled (by rw [hpc]; trivial)
  obtain ⟨heq, herr⟩ := Sock.recv_eq h
  obtain ⟨hinq, hle, -⟩ := recv_duplicate h
  have hforwarded : (s.goto .duplicate x .read).forwarded = s.forwarded :=
    s.goto_forwarded (by simp)
  have hproduced := hc.produced
  have hlag := hc.lag
  rw [hpc] at hproduced hlag
  refine ⟨fun _ => ⟨s.goto_shut hc.shut (by rw [heq]) .read, ?_, ?_, ?_, by simp⟩, by simp, ?_,
    hs.error_goto (by rw [heq]) herr .read, by simp⟩
  · change s.replies .remote = (s.goto .duplicate x .read).forwarded ++ [] ++
      ((s.goto .duplicate x .read).sock .remote).inq
    rw [hforwarded, State.goto_sock_of_ne _ _ (by simp)]
    exact hproduced
  · change s.replies .duplicate = s.taken ++ data r ++
      ((s.goto .duplicate x .read).sock .duplicate).inq
    rw [State.goto_sock_self, List.append_assoc, ← hinq]
    exact hc.echoed
  · change (s.taken ++ data r).length + 0 ≤ (s.goto .duplicate x .read).forwarded.length + 0
    rw [hforwarded, List.length_append]
    simp only [Pc.owed, Pc.pending, List.length_nil] at hlag
    omega
  · change ((s.goto .duplicate x .read).sock .client).rst = false
    rw [State.goto_sock_of_ne _ _ (by simp), hs.connected]

/-- A call behind the loop. -/
theorem Serving.cleanup (hs : Serving s) {op : Op SockId} {ops : List (Op SockId)}
    (hpc : s.pc = .cleanup (op :: ops)) : Serving (s.apply ops op) := by
  obtain ⟨hops, hforwarded, hended⟩ := hs.ended _ hpc
  have hne : ops ≠ closing := by
    rintro rfl
    exact Nat.not_succ_le_self _ hops
  have hle : ops.length ≤ closing.length := (Nat.le_succ _).trans hops
  cases op with
  | close i =>
    exact ⟨fun hloop => absurd hloop hne, fun ops' h => by
      cases h
      exact ⟨hle, hforwarded, hended⟩, hs.connected, hs.error, by simp [State.apply]⟩
  | shutdown i =>
    refine ⟨fun hloop => absurd hloop hne, fun ops' h => ?_, ?_,
      hs.error_goto (x := (s.sock i).shutdown) rfl (Or.inl rfl) (.cleanup ops),
      by simp [State.apply]⟩
    · cases h
      refine ⟨hle, ?_, ?_⟩
      · rw [State.apply, s.goto_forwarded fun hi => by
          rw [hi, Sock.shutdown_sent, State.forwarded]]
        exact hforwarded
      · rw [State.apply]
        obtain hsock | ⟨rfl, hsock⟩ :=
          s.goto_cases i (s.sock i).shutdown (.cleanup ops) .remote
        · rw [hsock]
          exact hended
        · rw [hsock]
          exact hended
    · rw [State.apply]
      obtain hsock | ⟨rfl, hsock⟩ := s.goto_cases i (s.sock i).shutdown (.cleanup ops) .client
      · rw [hsock, hs.connected]
      · rw [hsock]
        exact hs.connected

/-- The client does not reset its connection. -/
def Act.KeepsClient (a : Act) : Prop := a ≠ .peer .client .reset

instance : DecidablePred Act.KeepsClient :=
  fun a => inferInstanceAs (Decidable (a ≠ .peer .client .reset))

/-- **The invariant.** -/
theorem Serving.step (hs : Serving s) (ha : a.KeepsClient) (h : synchronous.step s a = some t) :
    Serving t := by
  cases trans_of_step h with
  | peer hx =>
    refine hs.acted ?_ hx
    rintro rfl rfl
    exact ha rfl
  | chunk hpc hx => exact hs.chunk hpc hx
  | ended hpc hr hx => exact hs.loopEnds hpc hr hx
  | send hpc hx => exact hs.send hpc hx
  | discard hpc hx => exact hs.discard hpc hx
  | cleanup hpc => exact hs.cleanup hpc

/-- A peer that has ended its stream has sent all of it, and a stream never gets shorter. -/
theorem replies_of_step (h : synchronous.step s a = some t) (i : SockId) :
    (s.replies i).length ≤ (t.replies i).length ∧
      (Ended (s.sock i) → Ended (t.sock i) ∧ t.replies i = s.replies i) := by
  -- a call of the function leaves the streams alone and neither opens nor closes a connection
  have hcall {j : SockId} {x : Sock} {p : Pc} (hfin : x.fin = (s.sock j).fin)
      (hrst : x.rst = (s.sock j).rst) :
      Ended (s.sock i) → Ended ((s.goto j x p).sock i) := by
    intro hended
    obtain hsock | ⟨rfl, hsock⟩ := s.goto_cases j x p i
    · rwa [hsock]
    · rwa [hsock, Ended, hfin, hrst]
  cases trans_of_step h with
  | @peer j ev x hx =>
    obtain ⟨hsock, hreplies⟩ | ⟨rfl, hsock, hreplies⟩ := s.acted_cases j ev x i
    · rw [hsock, hreplies]
      exact ⟨le_rfl, fun hended => ⟨hended, rfl⟩⟩
    · rw [hsock, hreplies, List.length_append]
      refine ⟨Nat.le_add_right _ _, fun hended => ?_⟩
      obtain ⟨hnil, hx⟩ := hended.peer hx
      rw [hnil, List.append_nil]
      exact ⟨hx, rfl⟩
  | chunk hpc hx =>
    have heq := (Sock.recv_eq hx).1
    exact ⟨le_rfl, fun hended => ⟨hcall (by rw [heq]) (by rw [heq]) hended, rfl⟩⟩
  | ended hpc hr hx =>
    have heq := (Sock.recv_eq hx).1
    exact ⟨le_rfl, fun hended => ⟨hcall (by rw [heq]) (by rw [heq]) hended, rfl⟩⟩
  | send hpc hx =>
    have heq := (Sock.send_eq hx).1
    exact ⟨le_rfl, fun hended => ⟨hcall (by rw [heq]) (by rw [heq]) hended, rfl⟩⟩
  | discard hpc hx =>
    have heq := (Sock.recv_eq hx).1
    exact ⟨le_rfl, fun hended =>
      ⟨hcall (p := .read) (by rw [heq]) (by rw [heq]) hended, rfl⟩⟩
  | @cleanup k op ops hpc =>
    cases op with
    | close j => exact ⟨le_rfl, fun hended => ⟨hended, rfl⟩⟩
    | shutdown j => exact ⟨le_rfl, fun hended => ⟨hcall rfl rfl hended, rfl⟩⟩

theorem replies_of_run {as : List Act} (h : synchronous.run s as = some t) (i : SockId) :
    (s.replies i).length ≤ (t.replies i).length ∧
      (Ended (s.sock i) → Ended (t.sock i) ∧ t.replies i = s.replies i) := by
  refine Machine.invariant_of_step
    (I := fun u => (s.replies i).length ≤ (u.replies i).length ∧
      (Ended (s.sock i) → Ended (u.sock i) ∧ u.replies i = s.replies i))
    (fun u a v hu hstep => ?_) ⟨le_rfl, fun hended => ⟨hended, rfl⟩⟩ h
  obtain ⟨hle, hsame⟩ := replies_of_step hstep i
  refine ⟨hu.1.trans hle, fun hended => ?_⟩
  obtain ⟨hended, hreplies⟩ := hu.2 hended
  exact ⟨(hsame hended).1, (hsame hended).2.trans hreplies⟩

end Serving

/-! ### The function does not wait for the duplicate in vain -/

/-- The duplicate has sent as many bytes as production, or has closed its connection. -/
def Supplied (s : State) : Prop :=
  (s.replies .remote).length ≤ (s.replies .duplicate).length ∨ Ended (s.sock .duplicate)

/-- The function waits for the duplicate. -/
def Waiting (s : State) : Prop :=
  (∃ n, s.pc = .discard n) ∧ ∀ k, synchronous.step s (.step k) = none

/-- What holds in a state `u` of a run that goes on to `t`: before a `recv` from the duplicate no
more has been taken from it than the chunks before the present one are long, and less than it sends
altogether, unless it closes; and behind the loop the client has been sent production's reply. -/
structure Served (u t : State) : Prop where
  taken : ∀ n, u.pc = .discard n → u.taken.length + n ≤ u.forwarded.length
  available : ∀ n, u.pc = .discard n →
    Ended (t.sock .duplicate) ∨ u.taken.length < (t.replies .duplicate).length
  complete : ∀ ops, u.pc = .cleanup ops → u.forwarded = t.replies .remote

section Served

variable {s t u : State} {n : ℕ}

theorem Serving.taken_le (hs : Serving s) (hpc : s.pc = .discard n) :
    0 < n ∧ s.taken.length + n ≤ s.forwarded.length ∧
      s.forwarded.length ≤ (s.replies .remote).length := by
  have hc := hs.coupled (by rw [hpc]; trivial)
  have hlag := hc.lag
  have hpos := hc.owed.2 n hpc
  rw [hpc] at hlag hpos
  refine ⟨hpos, hlag, ?_⟩
  rw [hc.produced, List.append_assoc, List.length_append]
  exact Nat.le_add_right _ _

/-- Once the duplicate has sent enough, or has closed, `recv` from it returns. -/
theorem Serving.not_waiting (hs : Serving s) (hsupplied : Supplied s) : ¬ Waiting s := by
  rintro ⟨⟨n, hpc⟩, hblocked⟩
  have hc := hs.coupled (by rw [hpc]; trivial)
  obtain ⟨hpos, hle, hproduced⟩ := hs.taken_le hpc
  have hrecv : (s.sock .duplicate).recv n 1 = none := by
    have hnone : s.receiveDataSynch 1 = none := hblocked 1
    rw [State.receiveDataSynch, hpc] at hnone
    exact Option.map_eq_none_iff.mp hnone
  unfold Sock.recv at hrecv
  split_ifs at hrecv with hinq herr hend htake
  · -- nothing has arrived that has not been taken, and the duplicate has not closed
    simp only [Bool.or_eq_true, not_or, Bool.not_eq_true] at hend
    rcases hsupplied with hlen | hfin | hrst
    · rw [hc.echoed, hinq, List.append_nil] at hlen
      omega
    · simp [hfin] at hend
    · simp [hrst] at hend
  · have hne := List.length_pos_iff.mpr hinq
    exact htake ⟨Nat.one_pos, hpos, hne⟩

end Served

/-- **The duplicate does not starve the client.** If the duplicate has at last sent as much as
production, or has closed its connection, then the function does not wait for it, and did not
before for bytes that have not come since. -/
theorem receiveDataSynch_served {as bs : List Act} {u t : State}
    (hkeeps : ∀ a ∈ as ++ bs, a.KeepsClient) (hu : synchronous.run start as = some u)
    (ht : synchronous.run u bs = some t) (hsupplied : Supplied t) : Served u t ∧ ¬ Waiting t := by
  have hserving {s v : State} {cs : List Act} (hcs : ∀ a ∈ cs, a.KeepsClient) (hs : Serving s)
      (hrun : synchronous.run s cs = some v) : Serving v :=
    (Machine.along_of_forall_mem hcs s).invariant (fun _ _ _ hs ha h => hs.step ha h) hs hrun
  have hsu := hserving (fun a ha => hkeeps a (List.mem_append_left bs ha)) .start hu
  have hst := hserving (fun a ha => hkeeps a (List.mem_append_right as ha)) hsu ht
  refine ⟨⟨fun n hpc => (hsu.taken_le hpc).2.1, fun n hpc => ?_, fun ops hpc => ?_⟩,
    hst.not_waiting hsupplied⟩
  · obtain ⟨hpos, htaken, hforwarded⟩ := hsu.taken_le hpc
    have hmore := (replies_of_run ht .remote).1
    exact hsupplied.symm.imp_right fun hlen => by omega
  · obtain ⟨-, hforwarded, hended⟩ := hsu.ended ops hpc
    rw [hforwarded, ((replies_of_run ht .remote).2 hended).2]

/-- Production sends two bytes, and the client gets them. -/
def chunkSent : List Act :=
  [.peer .client (.drain 2), .peer .remote (.deliver [1, 2]), .step 2, .step 2]

/-- The duplicate sends the same bytes one by one. The function takes the first one, production
closes its connection, and the second byte arrives. -/
def shortReply : List Act :=
  [.peer .duplicate (.deliver [1]), .step 1, .peer .remote .fin, .step 0,
    .peer .duplicate (.deliver [2])]

theorem receiveDataSynch_served_shortReply :
    ∃ u t, synchronous.run start chunkSent = some u ∧ synchronous.run u shortReply = some t ∧
      u.pc = .discard 2 ∧ Served u t ∧ ¬ Waiting t :=
  ⟨_, _, rfl, rfl, rfl,
    receiveDataSynch_served (by decide : ∀ a ∈ chunkSent ++ shortReply, a.KeepsClient) rfl rfl
      (Or.inl (by decide))⟩

/-! ### The duplicate is not drained in step -/

/-- A `recv` from the duplicate returns all the bytes that it asks for. -/
def TakesWhole (s : State) : Act → Prop
  | .step k => ∀ n, s.pc = .discard n → k = n ∧ n ≤ (s.sock .duplicate).inq.length
  | .peer _ _ => True

/-- Between two chunks as much has been taken from the duplicate as has gone to the client, and
behind the loop nothing of a reply as long as production's is left. -/
structure InStep (s : State) : Prop where
  taken : s.pc = .read ∨ s.pc = .cleanup closing → s.taken.length = s.forwarded.length
  unread : s.pc = .cleanup closing →
    (s.replies .duplicate).length = (s.replies .remote).length → (s.sock .duplicate).inq = []

/-- What keeps the streams in step inside an iteration. -/
structure Pacing (s : State) : Prop extends Serving s where
  pace : s.pc.InLoop → s.taken.length + s.pc.owed = s.forwarded.length + s.pc.pending.length

section Pacing

variable {s t : State} {a : Act}

theorem Pacing.inStep (hs : Pacing s) : InStep s := by
  have htaken (h : s.pc = .read ∨ s.pc = .cleanup closing) :
      s.taken.length = s.forwarded.length := by
    rcases h with hpc | hpc
    · have hpace := hs.pace (by rw [hpc]; trivial)
      rwa [hpc] at hpace
    · have hpace := hs.pace (by rw [hpc]; rfl)
      rwa [hpc] at hpace
  refine ⟨htaken, fun hpc hlen => ?_⟩
  have hc := hs.coupled (by rw [hpc]; rfl)
  obtain ⟨-, hforwarded, -⟩ := hs.ended _ hpc
  have heq := htaken (Or.inr hpc)
  rw [hforwarded, ← hlen, hc.echoed, List.length_append] at heq
  exact List.length_eq_zero_iff.mp (by omega)

theorem Pacing.step (hs : Pacing s) (ha : a.KeepsClient) (hwhole : TakesWhole s a)
    (h : synchronous.step s a = some t) : Pacing t := by
  refine ⟨hs.toServing.step ha h, ?_⟩
  cases trans_of_step h with
  | peer hx =>
    rw [State.acted_forwarded s hx]
    exact hs.pace
  | chunk hpc hx =>
    intro _
    have hpace := hs.pace (by rw [hpc]; trivial)
    rw [hpc] at hpace
    rw [s.goto_forwarded (by simp), State.goto_taken]
    exact congrArg (· + _) hpace
  | ended hpc hr hx =>
    intro _
    have hpace := hs.pace (by rw [hpc]; trivial)
    rw [hpc] at hpace
    rw [s.goto_forwarded (by simp), State.goto_taken]
    exact hpace
  | @send k buffer rest r x hpc hx =>
    intro _
    have hpace := hs.pace (by rw [hpc]; trivial)
    have hc := hs.coupled (by rw [hpc]; trivial)
    obtain ⟨room, heq, hr⟩ := Sock.send_open (hc.shut .client) hs.connected hx
    obtain ⟨hpending, howed, -, -⟩ := afterSend_cases (b := buffer) hr
    have hlen := congrArg List.length hpending
    rw [hpc] at hpace
    rw [State.forwarded, State.goto_sock_self, heq, Sock.sent_append_bytes, State.goto_pc,
      State.goto_taken, howed, List.length_append]
    rw [List.length_append] at hlen
    simp only [Pc.owed, Pc.pending, State.forwarded] at hpace
    omega
  | @discard k n r x hpc hx =>
    intro _
    have hpace := hs.pace (by rw [hpc]; trivial)
    have hc := hs.coupled (by rw [hpc]; trivial)
    have hlen := (length_data_of_recv hx (hs.taken_le hpc).1).mpr (hwhole n hpc)
    have hforwarded : (s.goto .duplicate x .read).forwarded = s.forwarded :=
      s.goto_forwarded (by simp)
    rw [hpc] at hpace
    change (s.taken ++ data r).length + 0 = (s.goto .duplicate x .read).forwarded.length + 0
    rw [hforwarded, List.length_append, hlen]
    exact hpace
  | @cleanup k op ops hpc =>
    intro hloop
    obtain ⟨hops, -, -⟩ := hs.ended _ hpc
    have hpc' : (s.apply ops op).pc = .cleanup ops := by cases op <;> rfl
    rw [hpc'] at hloop
    obtain rfl : ops = closing := hloop
    exact absurd hops (Nat.not_succ_le_self _)

/-- After a `recv` from the duplicate that returns less, the streams are out of step. -/
theorem Pacing.not_inStep (hs : Pacing s) (hwhole : ¬ TakesWhole s a)
    (h : synchronous.step s a = some t) : ¬ InStep t := by
  cases a with
  | peer i ev => exact absurd trivial hwhole
  | step k =>
    obtain ⟨n, hn⟩ := not_forall.mp hwhole
    obtain ⟨hpc, hshort⟩ := Classical.not_imp.mp hn
    cases trans_of_step h with
    | @discard k m r x hpc' hx =>
      obtain rfl : n = m := Pc.discard.inj (hpc.symm.trans hpc')
      have hpace := hs.pace (by rw [hpc]; trivial)
      have hforwarded : (s.goto .duplicate x .read).forwarded = s.forwarded :=
        s.goto_forwarded (by simp)
      rw [hpc] at hpace
      intro hin
      have htaken : (s.taken ++ data r).length = (s.goto .duplicate x .read).forwarded.length :=
        hin.taken (Or.inl rfl)
      rw [hforwarded, List.length_append] at htaken
      simp only [Pc.owed, Pc.pending, List.length_nil] at hpace
      exact hshort ((length_data_of_recv hx (hs.taken_le hpc).1).mp (by omega))
    | chunk hpc' => cases hpc.symm.trans hpc'
    | ended hpc' => cases hpc.symm.trans hpc'
    | send hpc' => cases hpc.symm.trans hpc'
    | cleanup hpc' => cases hpc.symm.trans hpc'

theorem Pacing.start : Pacing start := ⟨.start, fun _ => rfl⟩

end Pacing

/-- **Draining in step.** As much is taken from the duplicate as goes to the client, chunk by chunk,
exactly in the runs in which every `recv` from the duplicate returns all that it asks for. -/
theorem along_takesWhole_iff {as : List Act} (hkeeps : ∀ a ∈ as, a.KeepsClient) :
    synchronous.Along TakesWhole start as ↔ synchronous.Throughout InStep start as :=
  Machine.along_iff_throughout (I := Pacing) (fun _ _ _ hs ha hwhole h => hs.step ha hwhole h)
    (fun _ hs => hs.inStep) (fun _ _ _ hs _ hwhole h => hs.not_inStep hwhole h) .start
    (Machine.along_of_forall_mem hkeeps _)

theorem along_takesWhole_iff_shortReply :
    (synchronous.run start (chunkSent ++ shortReply)).isSome ∧
      (synchronous.Along TakesWhole start (chunkSent ++ shortReply) ↔
        synchronous.Throughout InStep start (chunkSent ++ shortReply)) :=
  ⟨by decide, along_takesWhole_iff (by decide)⟩

/-- Both servers send the same two bytes and the duplicate closes nothing, but its second byte is
left when the loop ends. -/
theorem shortReply_not_inStep :
    ∃ t, synchronous.run start (chunkSent ++ shortReply) = some t ∧
      t.replies .remote = t.replies .duplicate ∧
      (t.sock .duplicate).fin = false ∧ (t.sock .duplicate).rst = false ∧
      t.pc = .cleanup closing ∧ (t.sock .duplicate).inq = [2] ∧
      ¬ synchronous.Throughout InStep start (chunkSent ++ shortReply) := by
  refine ⟨_, rfl, rfl, rfl, rfl, rfl, rfl, fun hin => ?_⟩
  have hunread := (hin.last rfl).unread rfl rfl
  cases hunread

end Parikshan.Duplicator.Synch
