import Parikshan.Posix.Dataflow
import Mathlib.Data.Set.Insert
import Mathlib.Data.List.Infix

/-!
# Two forwarding loops back to back

Two processes relay between two connections, one in each direction, and may copy what they forward
to a pipe. Each loop shuts both sockets down when it comes to the end of its source, so the loop
that ends first also ends the other one. Up to that point nothing is lost, and the direction that
ends first is complete.

## Main definitions

* `Direction`: one direction of a relay, with what its sender has said.
* `Complete`: a direction that has been forwarded to its end.
* `Relay`: both directions.

## Main results

* `Relay.forward`, `Relay.peer`: the invariant of the relay.
* `Relay.complete_or`: when nothing more happens one direction is complete.
-/

namespace Parikshan.Posix

namespace Sock

/-- A `send` adds to what has been sent. -/
theorem send_sent {s t : Sock} {k : ℕ} {buf rest : List Byte} {r : Sending}
    (h : s.send k buf rest = some (r, t)) : s.sent <+: t.sent := by
  by_cases hs : s.shut = true ∨ s.rst = true
  · rw [(send_closed hs h).1]
    exact List.prefix_rfl
  · rw [not_or, Bool.not_eq_true, Bool.not_eq_true] at hs
    obtain ⟨room, rfl, -⟩ := send_open hs.1 hs.2 h
    rw [sent_append_bytes]
    exact List.prefix_append _ _

end Sock

namespace Loop

variable {ι κ : Type*} [DecidableEq ι] [DecidableEq κ] {L : Loop ι κ} {hasRd hasWr : κ → Bool}
  {w w' : World ι κ} {p p' : Proc ι κ} {c : Choice} {i d : ι}

/-- What has been sent stays sent, whatever the process does. -/
theorem step_sent_prefix (j : ι) (h : L.step hasRd hasWr w p c = some (w', p')) :
    (w.sock j).sent <+: (w'.sock j).sent := by
  rcases step_sock j h with heq | ⟨len, k, r, hr⟩ | ⟨k, buf, rest, r, -, hr⟩ | ⟨ops, -, heq⟩
  · rw [heq]
  · rw [(Sock.recv_eq hr).1]
    exact List.prefix_rfl
  · exact Sock.send_sent hr
  · rw [heq, Sock.shutdown_sent]

/-- On a socket that can no longer send nothing is sent. -/
theorem step_sent_closed {j : ι} (hj : (w.sock j).Closed)
    (h : L.step hasRd hasWr w p c = some (w', p')) : (w'.sock j).sent = (w.sock j).sent := by
  rcases step_sock j h with heq | ⟨len, k, r, hr⟩ | ⟨k, buf, rest, r, -, hr⟩ | ⟨ops, -, heq⟩
  · rw [heq]
  · rw [(Sock.recv_eq hr).1]
    rfl
  · rw [(Sock.send_closed hj hr).1]
    rfl
  · rw [heq, Sock.shutdown_sent]

/-- A process does to the peer's side of a connection nothing but to clear a pending error, and
does not undo a shutdown. -/
theorem step_sides (j : ι) (h : L.step hasRd hasWr w p c = some (w', p')) :
    (w'.sock j).fin = (w.sock j).fin ∧ (w'.sock j).rst = (w.sock j).rst ∧
      ((w.sock j).err = false → (w'.sock j).err = false) ∧
      ((w.sock j).shut = true → (w'.sock j).shut = true) := by
  rcases step_sock j h with heq | ⟨len, k, r, hr⟩ | ⟨k, buf, rest, r, -, hr⟩ | ⟨ops, -, heq⟩
  · rw [heq]
    exact ⟨rfl, rfl, id, id⟩
  · obtain ⟨heq, herr⟩ := Sock.recv_eq hr
    rw [heq]
    exact ⟨rfl, rfl, fun he => herr.elim (·.trans he) id, id⟩
  · obtain ⟨heq, herr⟩ := Sock.send_eq hr
    rw [heq]
    exact ⟨rfl, rfl, fun he => herr.elim (·.trans he) id, id⟩
  · rw [heq]
    exact ⟨rfl, rfl, id, fun _ => rfl⟩

/-- A step takes nothing from a socket that is not the source. -/
theorem step_inq {j : ι} (hj : L.source ≠ .sock j)
    (h : L.step hasRd hasWr w p c = some (w', p')) : (w'.sock j).inq = (w.sock j).inq := by
  cases trans_of_step h with
  | @recv k i r s hpc hsrc hr =>
    have hne : j ≠ i := by
      rintro rfl
      exact hj hsrc
    rw [World.setSock_sock_of_ne _ hne]
  | @send k i buf rest r s hpc hdst hr =>
    rw [World.setSock_sock]
    split_ifs with hji
    · subst hji
      unfold Proc.send at hr
      split_ifs at hr with ho
      · rw [(Sock.send_eq hr).1]
      · cases hr
        rfl
    · rfl
  | @shutdown k i ops hpc =>
    rw [World.setSock_sock, Proc.shutdown]
    split_ifs with hji ho
    · subst hji
      rfl
    · rw [hji]
    · rfl
  | _ => rfl

/-- The part of a buffer still to be sent stays its end. -/
theorem step_cut (hcut : p.pc.Cut) (h : L.step hasRd hasWr w p c = some (w', p')) :
    p'.pc.Cut := by
  have hafter (r : Ret) : (L.afterRead r).Cut := by
    intro buf rest hpc
    cases r with
    | bytes bs =>
      cases hd : L.dest with
      | none => simp [afterRead, hd] at hpc
      | some d =>
        obtain ⟨rfl, rfl⟩ := by simpa [afterRead, hd] using hpc
        exact List.suffix_rfl
    | eof => simp [afterRead] at hpc
    | error => simp [afterRead] at hpc
  cases trans_of_step h with
  | recv hpc hsrc hr => exact hafter _
  | read hpc hsrc hr => exact hafter _
  | @send k i buf rest r s hpc hdst hr =>
    intro buf' rest' hpc'
    cases r with
    | more rest'' =>
      obtain ⟨rfl, rfl⟩ := by simpa [sending] using hpc'
      unfold Proc.send Sock.send at hr
      split_ifs at hr <;> simp only [Option.some.injEq, Prod.mk.injEq, Sock.Sending.more.injEq,
        reduceCtorEq, false_and] at hr
      obtain ⟨rfl, -⟩ := hr
      exact (List.drop_suffix k rest).trans (hcut _ _ hpc)
    | returned => cases ht : L.tee <;> simp [sending, afterSend, ht] at hpc'
    | sigpipe => simp [sending] at hpc'
  | wake hpc => exact fun _ _ hpc' => by cases hpc'
  | shutdown hpc => exact fun _ _ hpc' => by cases hpc'
  | close hpc => exact fun _ _ hpc' => by cases hpc'
  | write hpc htee hrd hx => exact fun _ _ hpc' => by cases hpc'
  | writeSigpipe hpc htee hrd => exact fun _ _ hpc' => by cases hpc'

/-- A step of a loop between two sockets, the destination of which is open, moves bytes from the
source to the hands of the process and from there to the destination: none is lost, repeated or
reordered. -/
theorem step_relay {K : Set ι} (hsrc : L.source = .sock i) (hdst : L.dest = some d)
    (htee : ∀ q, L.tee = some q → hasRd q = true) (hne : d ≠ i) (hi : i ∈ K) (hd : d ∈ K)
    (hs : p.HoldsSocks K)
    (hopen : ¬ (w.sock d).Closed) (hcut : p.pc.Cut)
    (h : L.step hasRd hasWr w p c = some (w', p')) :
    (w'.sock d).sent ++ p'.pc.unsent ++ (w'.sock i).inq =
      (w.sock d).sent ++ p.pc.unsent ++ (w.sock i).inq := by
  cases trans_of_step h with
  | wake hpc => simp [hpc, Pc.unsent]
  | @recv k j r s hpc hsrc' hr =>
    obtain rfl : i = j := Source.sock.inj (hsrc.symm.trans hsrc')
    rw [Proc.recv, if_pos (hs (by rw [hpc]; rfl) i hi)] at hr
    rw [World.setSock_sock_of_ne _ hne, World.setSock_sock_self, hpc]
    cases r with
    | bytes bs => simp [afterRead, hdst, Pc.unsent, (Sock.recv_bytes hr).2.2.1]
    | eof => rw [(Sock.recv_end (by simp) hr).2.2]; rfl
    | error => rw [(Sock.recv_end (by simp) hr).2.2]; rfl
  | read hpc hsrc' hr => simp [hsrc] at hsrc'
  | @send k j buf rest r s hpc hdst' hr =>
    obtain rfl : d = j := Option.some.inj (hdst.symm.trans hdst')
    rw [Proc.send, if_pos (hs (by rw [hpc]; rfl) d hd)] at hr
    have hmove := (send_moves (L := L) (p := p) hopen (hcut buf rest hpc) hr).1
    rw [World.setSock_sock_self, World.setSock_sock_of_ne _ hne.symm, hmove, hpc, Pc.unsent]
  | @shutdown k j ops hpc =>
    rw [sent_setSock_shutdown, hpc]
    congr 1
    rw [World.setSock_sock, Proc.shutdown]
    split_ifs with hij ho
    · rw [hij]
      rfl
    · rw [hij]
    · rfl
  | close hpc => simp [hpc, Pc.unsent]
  | write hpc htee' hrd hx => simp [hpc, Pc.unsent, World.setPipe]
  | writeSigpipe hpc htee' hrd => simp [htee _ htee'] at hrd

/-- A loop between two sockets, the destination of which is open, is left only when its source
has ended and nothing is left to receive. -/
theorem step_ends {K : Set ι} (hsrc : L.source = .sock i) (hdst : L.dest = some d)
    (htee : ∀ q, L.tee = some q → hasRd q = true) (hi : i ∈ K) (hd : d ∈ K) (hs : p.HoldsSocks K)
    (hopen : ¬ (w.sock d).Closed) (hin : p.pc.inLoop = true)
    (h : L.step hasRd hasWr w p c = some (w', p')) :
    p'.pc.inLoop = true ∨ p'.pc.inLoop = false ∧ (w'.sock i).inq = [] ∧
      ((w.sock i).err = true ∨ (w.sock i).fin = true ∨ (w.sock i).rst = true ∨
        (w.sock i).shut = true) := by
  cases trans_of_step h with
  | wake hpc => exact Or.inl rfl
  | @recv k j r s hpc hsrc' hr =>
    obtain rfl : i = j := Source.sock.inj (hsrc.symm.trans hsrc')
    rw [Proc.recv, if_pos (hs hin i hi)] at hr
    have hended (hr' : ∀ bs, r ≠ .bytes bs) : ((w.setSock i s).sock i).inq = [] ∧
        ((w.sock i).err = true ∨ (w.sock i).fin = true ∨ (w.sock i).rst = true ∨
          (w.sock i).shut = true) := by
      obtain ⟨hq, hcause, hs'⟩ := Sock.recv_end hr' hr
      rw [World.setSock_sock_self, hs']
      exact ⟨hq, hcause⟩
    cases r with
    | bytes bs => exact Or.inl (by simp [afterRead, hdst, Pc.inLoop])
    | eof => exact Or.inr ⟨rfl, hended (by simp)⟩
    | error => exact Or.inr ⟨rfl, hended (by simp)⟩
  | read hpc hsrc' hr => simp [hsrc] at hsrc'
  | @send k j buf rest r s hpc hdst' hr =>
    obtain rfl : d = j := Option.some.inj (hdst.symm.trans hdst')
    rw [Proc.send, if_pos (hs hin d hd)] at hr
    refine Or.inl ?_
    rw [Sock.Closed, not_or, Bool.not_eq_true, Bool.not_eq_true] at hopen
    obtain ⟨-, -, ⟨rfl, -⟩ | ⟨rfl, -⟩⟩ := Sock.send_open hopen.1 hopen.2 hr
    · cases ht : L.tee <;> simp [sending, afterSend, ht, Pc.inLoop]
    · rfl
  | shutdown hpc => simp [hpc, Pc.inLoop] at hin
  | close hpc => simp [hpc, Pc.inLoop] at hin
  | write hpc htee' hrd hx => exact Or.inl rfl
  | writeSigpipe hpc htee' hrd => simp [htee _ htee'] at hrd

end Loop

/-! ### One direction -/

/-- The bytes that a peer sends. -/
def Sock.Peer.payload : Sock.Peer → List Byte
  | .deliver bs => bs
  | .fin => []
  | .reset => []
  | .drain _ => []

/-- What a peer says arrives, unless the socket has been shut down, and a peer that has closed its
side says nothing more. -/
theorem Sock.peer_payload {s t : Sock} {e : Sock.Peer} (h : s.peer e = some t) :
    (s.shut = false → t.inq = s.inq ++ e.payload) ∧ (s.shut = true → t.inq = s.inq) ∧
      (s.fin = true → t.fin = true ∧ e.payload = []) := by
  cases e with
  | deliver bs =>
    simp only [peer] at h
    split_ifs at h with hend hshut <;> simp only [Option.some.injEq] at h <;> subst h
    · simp only [Bool.or_eq_true, not_or, Bool.not_eq_true] at hend
      simp [hshut, hend.1]
    · simp only [Bool.or_eq_true, not_or, Bool.not_eq_true] at hend
      simp [hshut, hend.1, Peer.payload]
  | fin =>
    simp only [peer] at h
    split_ifs at h with hend
    simp only [Option.some.injEq] at h
    subst h
    simp [Peer.payload]
  | reset =>
    simp only [peer] at h
    split_ifs at h with hend
    simp only [Option.some.injEq] at h
    subst h
    simp [Peer.payload]
  | drain k =>
    simp only [peer, Option.some.injEq] at h
    subst h
    simp [Peer.payload]

/-- Only the peer ends its stream, and resets the connection, by these actions. -/
theorem Sock.peer_side {s t : Sock} {e : Sock.Peer} (h : s.peer e = some t) :
    (e ≠ .fin → t.fin = s.fin) ∧ (e ≠ .reset → t.rst = s.rst ∧ t.err = s.err) := by
  cases e with
  | drain k =>
    simp only [peer, Option.some.injEq] at h
    subst h
    simp
  | _ =>
    simp only [peer] at h
    split_ifs at h <;> simp only [Option.some.injEq] at h <;> subst h <;> simp

/-- One direction of a relay: what has been sent on `d` is a prefix of what the peer of `i` has
said. While `d` is open the bytes in hand and those that have arrived follow it, and while `i` is
open as well that is all. -/
structure Direction {ι κ : Type*} (w : World ι κ) (p : Proc ι κ) (i d : ι) (said : List Byte) :
    Prop where
  cut : p.pc.Cut
  sent : (w.sock d).sent <+: said
  flow : (w.sock d).shut = false → (w.sock d).sent ++ p.pc.unsent ++ (w.sock i).inq <+: said
  whole : (w.sock d).shut = false → (w.sock i).shut = false →
    (w.sock d).sent ++ p.pc.unsent ++ (w.sock i).inq = said

/-- A direction that has been forwarded to the end of its stream. -/
structure Complete {ι κ : Type*} (w : World ι κ) (p : Proc ι κ) (i d : ι) (said : List Byte) :
    Prop where
  left : p.pc.inLoop = false
  fin : (w.sock i).fin = true
  sent : (w.sock d).sent = said

section Direction

variable {ι κ : Type*} [DecidableEq ι] [DecidableEq κ] {L : Loop ι κ} {hasRd hasWr : κ → Bool}
  {w w' : World ι κ} {p p' q q' : Proc ι κ} {c : Choice} {i d : ι} {said : List Byte}

omit [DecidableEq ι] [DecidableEq κ] in
/-- A process that has left its loop has nothing in hand. -/
theorem Direction.done (h : Direction w p i d said) (hp : p.pc.inLoop = false)
    (hp' : p'.pc.inLoop = false) : Direction w p' i d said := by
  have hunsent : p'.pc.unsent = p.pc.unsent := by
    rw [Pc.unsent_of_not_inLoop hp, Pc.unsent_of_not_inLoop hp']
  refine { h with
    cut := fun buf rest hpc => ?_
    flow := hunsent ▸ h.flow
    whole := hunsent ▸ h.whole }
  rw [hpc] at hp'
  cases hp'

/-- A step of the process that forwards in this direction. -/
theorem Direction.step (h : Direction w p i d said) (hsrc : L.source = .sock i)
    (hdst : L.dest = some d) (htee : ∀ q, L.tee = some q → hasRd q = true) (hne : d ≠ i)
    (hs : p.HoldsSocks {i, d})
    (hrst : (w.sock d).rst = false) (hstep : L.step hasRd hasWr w p c = some (w', p')) :
    Direction w' p' i d said := by
  have hcut := Loop.step_cut h.cut hstep
  by_cases hshut : (w.sock d).shut = true
  · have hshut' := (Loop.step_sides d hstep).2.2.2 hshut
    refine ⟨hcut, ?_, by simp [hshut'], by simp [hshut']⟩
    rw [Loop.step_sent_closed (Or.inl hshut) hstep]
    exact h.sent
  · rw [Bool.not_eq_true] at hshut
    have hopen : ¬ (w.sock d).Closed := by simp [Sock.Closed, hshut, hrst]
    have hd : d ∈ ({i, d} : Set ι) := Set.mem_insert_of_mem i rfl
    have hmove := Loop.step_relay hsrc hdst htee hne (Set.mem_insert i _) hd hs hopen h.cut hstep
    have hflow := h.flow hshut
    rw [← hmove] at hflow
    refine ⟨hcut, ?_, fun _ => hflow, fun _ hi => ?_⟩
    · rw [List.append_assoc] at hflow
      exact (List.prefix_append _ _).trans hflow
    · rw [hmove]
      refine h.whole hshut ?_
      by_contra hi'
      simp [(Loop.step_sides i hstep).2.2.2 (by simpa using hi')] at hi

/-- A step of the process that forwards in the other direction. -/
theorem Direction.step_back (h : Direction w p i d said) (hsrc : L.source = .sock d)
    (hdst : L.dest = some i) (hne : d ≠ i) (hstep : L.step hasRd hasWr w q c = some (w', q')) :
    Direction w' p i d said := by
  have hsent : (w'.sock d).sent = (w.sock d).sent :=
    Loop.step_sent (by simpa [hdst] using hne.symm) hstep
  have hinq : (w'.sock i).inq = (w.sock i).inq := Loop.step_inq (by simpa [hsrc] using hne) hstep
  have hshut {j : ι} (hj : (w'.sock j).shut = false) : (w.sock j).shut = false := by
    by_contra hj'
    simp [(Loop.step_sides j hstep).2.2.2 (by simpa using hj')] at hj
  refine ⟨h.cut, hsent ▸ h.sent, fun hd => ?_, fun hd hi => ?_⟩ <;> rw [hsent, hinq]
  · exact h.flow (hshut hd)
  · exact h.whole (hshut hd) (hshut hi)

omit [DecidableEq κ] in
/-- A step of a peer. -/
theorem Direction.peer (h : Direction w p i d said) (hne : d ≠ i) {j : ι} {e : Sock.Peer} {x : Sock}
    (hx : (w.sock j).peer e = some x) :
    Direction (w.setSock j x) p i d (if j = i then said ++ e.payload else said) := by
  obtain ⟨hissued, hshut⟩ := Sock.peer_eq hx
  obtain ⟨hopen, hlost, -⟩ := Sock.peer_payload hx
  have hsent (j' : ι) : ((w.setSock j x).sock j').sent = (w.sock j').sent := by
    rw [World.setSock_sock]
    split_ifs with hj
    · rw [hj, Sock.sent, Sock.sent, hissued]
    · rfl
  have hshut' (j' : ι) : ((w.setSock j x).sock j').shut = (w.sock j').shut := by
    rw [World.setSock_sock]
    split_ifs with hj
    · rw [hj, hshut]
    · rfl
  by_cases hji : j = i
  · subst hji
    rw [if_pos rfl]
    refine ⟨h.cut, ?_, fun hd => ?_, fun hd hi => ?_⟩
    · rw [hsent]
      exact h.sent.trans (List.prefix_append _ _)
    · rw [hshut'] at hd
      rw [hsent, World.setSock_sock_self]
      cases hi : (w.sock j).shut with
      | false =>
        rw [hopen hi, ← List.append_assoc, h.whole hd hi]
      | true =>
        rw [hlost hi]
        exact (h.flow hd).trans (List.prefix_append _ _)
    · rw [hshut'] at hd hi
      rw [hsent, World.setSock_sock_self, hopen hi, ← List.append_assoc, h.whole hd hi]
  · have hinq : ((w.setSock j x).sock i).inq = (w.sock i).inq := by
      rw [World.setSock_sock_of_ne _ (Ne.symm hji)]
    rw [if_neg hji]
    refine ⟨h.cut, hsent d ▸ h.sent, fun hd => ?_, fun hd hi => ?_⟩ <;> rw [hsent, hinq]
    · exact h.flow (hshut' d ▸ hd)
    · exact h.whole (hshut' d ▸ hd) (hshut' i ▸ hi)

omit [DecidableEq ι] [DecidableEq κ] in
/-- A direction that is complete stays so. -/
theorem Complete.mono (h : Complete w p i d said) (hleft : p'.pc.inLoop = false)
    (hfin : (w'.sock i).fin = true) (hsent : (w.sock d).sent <+: (w'.sock d).sent)
    (hd : Direction w' p' i d said) : Complete w' p' i d said := by
  refine ⟨hleft, hfin, ?_⟩
  rw [h.sent] at hsent
  exact hd.sent.eq_of_length (Nat.le_antisymm hd.sent.length_le hsent.length_le)

end Direction

/-! ### Both directions -/

/-- Two processes that relay between `i` and `d`, whose peers have said `a` and `b`: while both are
in their loops no socket is shut down, and the direction whose process leaves first is complete. -/
structure Relay {ι κ : Type*} (w : World ι κ) (p q : Proc ι κ) (i d : ι) (a b : List Byte) :
    Prop where
  holds : p.HoldsSocks {i, d}
  holds' : q.HoldsSocks {i, d}
  calm : ∀ j ∈ ({i, d} : Set ι), (w.sock j).rst = false ∧ (w.sock j).err = false
  forth : Direction w p i d a
  back : Direction w q d i b
  ended : (p.pc.inLoop = true ∧ q.pc.inLoop = true ∧ (w.sock i).shut = false ∧
    (w.sock d).shut = false) ∨ Complete w p i d a ∨ Complete w q d i b

namespace Relay

variable {ι κ : Type*} {w w' : World ι κ} {p p' q q' : Proc ι κ} {i d : ι} {a b : List Byte}

theorem swap (h : Relay w p q i d a b) : Relay w q p d i b a where
  holds := Set.pair_comm i d ▸ h.holds'
  holds' := Set.pair_comm i d ▸ h.holds
  calm := Set.pair_comm i d ▸ h.calm
  forth := h.back
  back := h.forth
  ended := h.ended.imp (fun ⟨hp, hq, hi, hd⟩ => ⟨hq, hp, hd, hi⟩) Or.symm

/-- A process that has left its loop exits. -/
theorem exit (h : Relay w p q i d a b) (hp : p.pc.inLoop = false) (hp' : p'.pc.inLoop = false) :
    Relay w p' q i d a b where
  holds hin := by simp [hp'] at hin
  holds' := h.holds'
  calm := h.calm
  forth := h.forth.done hp hp'
  back := h.back
  ended := by
    rcases h.ended with ⟨hin, -⟩ | hforth | hback
    · simp [hp] at hin
    · exact Or.inr (Or.inl ⟨hp', hforth.fin, hforth.sent⟩)
    · exact Or.inr (Or.inr hback)

/-- Nothing is said of the pipes. -/
theorem of_sock (h : Relay w p q i d a b) (hw : w'.sock = w.sock) : Relay w' p q i d a b where
  holds := h.holds
  holds' := h.holds'
  calm := hw ▸ h.calm
  forth := ⟨h.forth.cut, hw ▸ h.forth.sent, hw ▸ h.forth.flow, hw ▸ h.forth.whole⟩
  back := ⟨h.back.cut, hw ▸ h.back.sent, hw ▸ h.back.flow, hw ▸ h.back.whole⟩
  ended := by
    rcases h.ended with ⟨hp, hq, hi, hd⟩ | hforth | hback
    · exact Or.inl ⟨hp, hq, hw ▸ hi, hw ▸ hd⟩
    · exact Or.inr (Or.inl ⟨hforth.left, hw ▸ hforth.fin, hw ▸ hforth.sent⟩)
    · exact Or.inr (Or.inr ⟨hback.left, hw ▸ hback.fin, hw ▸ hback.sent⟩)

variable [DecidableEq ι] [DecidableEq κ] {L : Loop ι κ} {hasRd hasWr : κ → Bool} {c : Choice}

/-- A step of one of the two processes, which may copy to a pipe that somebody has open. -/
theorem forward (h : Relay w p q i d a b) (hsrc : L.source = .sock i) (hdst : L.dest = some d)
    (htee : ∀ q, L.tee = some q → hasRd q = true) (hne : d ≠ i)
    (hstep : L.step hasRd hasWr w p c = some (w', p')) :
    Relay w' p' q i d a b := by
  have hi : i ∈ ({i, d} : Set ι) := Set.mem_insert i _
  have hd : d ∈ ({i, d} : Set ι) := Set.mem_insert_of_mem i rfl
  have hforth := h.forth.step hsrc hdst htee hne h.holds (h.calm d hd).1 hstep
  have hback := h.back.step_back hsrc hdst hne.symm hstep
  refine ⟨Loop.step_holdsSocks h.holds hstep, h.holds', fun j hj => ?_, hforth, hback, ?_⟩
  · obtain ⟨-, hrst, herr, -⟩ := Loop.step_sides j hstep
    exact ⟨hrst.trans (h.calm j hj).1, herr (h.calm j hj).2⟩
  have hfin (j : ι) := (Loop.step_sides j hstep).1
  rcases h.ended with ⟨hp, hq, hshut, hshut'⟩ | hcomplete | hcomplete
  · have hopen : ¬ (w.sock d).Closed := by simp [Sock.Closed, hshut', (h.calm d hd).1]
    have hstay {j : ι} (hj : (w.sock j).shut = false) : (w'.sock j).shut = false := by
      by_contra hj'
      rcases Loop.step_shut hstep (by simpa using hj') with hj' | ⟨ops, hpc⟩
      · simp [hj] at hj'
      · simp [hpc, Pc.inLoop] at hp
    rcases Loop.step_ends hsrc hdst htee hi hd h.holds hopen hp hstep with hp' | ⟨hp', hq', hcause⟩
    · exact Or.inl ⟨hp', hq, hstay hshut, hstay hshut'⟩
    · refine Or.inr (Or.inl ⟨hp', ?_, ?_⟩)
      · rw [hfin i]
        simpa [h.calm i hi, hshut] using hcause
      · have hwhole := hforth.whole (hstay hshut') (hstay hshut)
        rwa [Pc.unsent_of_not_inLoop hp', hq', List.append_nil, List.append_nil] at hwhole
  · exact Or.inr (Or.inl (hcomplete.mono (Loop.step_ended hcomplete.left hstep).1
      ((hfin i).trans hcomplete.fin) (Loop.step_sent_prefix d hstep) hforth))
  · exact Or.inr (Or.inr (hcomplete.mono hcomplete.left ((hfin d).trans hcomplete.fin)
      (Loop.step_sent_prefix i hstep) hback))

/-- A step of one of the two processes, which copies to no pipe. -/
theorem step (h : Relay w p q i d a b) (hsrc : L.source = .sock i) (hdst : L.dest = some d)
    (htee : L.tee = none) (hne : d ≠ i) (hstep : L.step hasRd hasWr w p c = some (w', p')) :
    Relay w' p' q i d a b :=
  h.forward hsrc hdst (by simp [htee]) hne hstep

omit [DecidableEq κ] in
/-- A step of a peer that does not reset its connection. -/
theorem peer (h : Relay w p q i d a b) (hne : d ≠ i) {j : ι} {e : Sock.Peer} {x : Sock}
    (hreset : j ∈ ({i, d} : Set ι) → e ≠ .reset) (hx : (w.sock j).peer e = some x) :
    Relay (w.setSock j x) p q i d (if j = i then a ++ e.payload else a)
      (if j = d then b ++ e.payload else b) := by
  have hforth := h.forth.peer hne hx
  have hback := h.back.peer hne.symm hx
  have hsent (j' : ι) : (w.sock j').sent = ((w.setSock j x).sock j').sent := by
    rw [World.setSock_sock]
    split_ifs with hj
    · rw [hj, Sock.sent, Sock.sent, (Sock.peer_eq hx).1]
    · rfl
  have hcomplete {r : Proc ι κ} {i' d' : ι} {said : List Byte} (hr : Complete w r i' d' said) :
      Complete (w.setSock j x) r i' d' (if j = i' then said ++ e.payload else said) := by
    by_cases hj : j = i'
    · subst hj
      obtain ⟨hfin, hpayload⟩ := (Sock.peer_payload hx).2.2 hr.fin
      rw [if_pos rfl, hpayload, List.append_nil]
      exact ⟨hr.left, by rw [World.setSock_sock_self, hfin], hsent d' ▸ hr.sent⟩
    · rw [if_neg hj]
      exact ⟨hr.left, by rw [World.setSock_sock_of_ne _ (Ne.symm hj), hr.fin], hsent d' ▸ hr.sent⟩
  refine ⟨h.holds, h.holds', fun j' hj' => ?_, hforth, hback, ?_⟩
  · have hcalm := h.calm j' hj'
    rw [World.setSock_sock]
    split_ifs with hj
    · subst hj
      obtain ⟨hrst, herr⟩ := (Sock.peer_side hx).2 (hreset hj')
      exact ⟨hrst.trans hcalm.1, herr.trans hcalm.2⟩
    · exact hcalm
  · rcases h.ended with ⟨hp, hq, hshut, hshut'⟩ | hr | hr
    · have hstay (j' : ι) : ((w.setSock j x).sock j').shut = (w.sock j').shut := by
        rw [World.setSock_sock]
        split_ifs with hj
        · rw [hj, (Sock.peer_eq hx).2]
        · rfl
      exact Or.inl ⟨hp, hq, (hstay i).trans hshut, (hstay d).trans hshut'⟩
    · exact Or.inr (Or.inl (hcomplete hr))
    · exact Or.inr (Or.inr (hcomplete hr))

omit [DecidableEq ι] [DecidableEq κ] in
/-- When the two processes wait for what they read or have ended, at least one direction is
complete, and each one whose destination has been sent all that was said. -/
theorem complete_or (h : Relay w p q i d a b)
    (hp : p.pc.inLoop = true → p.pc.unsent = [] ∧ (w.sock i).inq = [])
    (hq : q.pc.inLoop = true → q.pc.unsent = [] ∧ (w.sock d).inq = []) :
    (w.sock d).sent = a ∧ (w.sock i).sent = b ∨
      (w.sock d).sent = a ∧ (w.sock i).fin = true ∨
        (w.sock i).sent = b ∧ (w.sock d).fin = true := by
  rcases h.ended with ⟨hpin, hqin, hshut, hshut'⟩ | hcomplete | hcomplete
  · obtain ⟨hunsent, hinq⟩ := hp hpin
    obtain ⟨hunsent', hinq'⟩ := hq hqin
    have hforth := h.forth.whole hshut' hshut
    have hback := h.back.whole hshut hshut'
    rw [hunsent, hinq, List.append_nil, List.append_nil] at hforth
    rw [hunsent', hinq', List.append_nil, List.append_nil] at hback
    exact Or.inl ⟨hforth, hback⟩
  · exact Or.inr (Or.inl ⟨hcomplete.sent, hcomplete.fin⟩)
  · exact Or.inr (Or.inr ⟨hcomplete.sent, hcomplete.fin⟩)

end Relay

end Parikshan.Posix
