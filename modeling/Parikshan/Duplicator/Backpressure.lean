import Mathlib.Algebra.Ring.Nat
import Parikshan.Duplicator.Lockstep

/-!
# The duplicate holds production back

In synchronous mode `T1` sends every chunk twice, with blocking calls whose result it does not look
at. So the duplicate is never more than a chunk behind production while its connection is open, and
not ahead of it while production's is; what is taken from the client, and with it what production is
served, is bounded by what the duplicate takes. In asynchronous mode the pipe is there to avoid
this.

A worker that comes to the end of its source ends the other one as well. One that is killed does
not: the other one may then wait for good, with the client's connection open.

## Main definitions

* `Copies`: what has been sent to production and to the duplicate, at each place of `T1`.
* `Streams`: the invariant of the three streams.
* `Quiet`: no process takes a step.

## Main results

* `lockstep_streams`: what production and the duplicate have been sent.
* `lockstep_backpressure`: the duplicate's buffer bounds what is taken from the client.
* `lockstep_quiet`: how a handled client ends, or waits.
-/

namespace Parikshan.Duplicator.Lockstep

open Posix

/-! ### The three streams -/

/-- What has been sent to production (`x`) and to the duplicate (`y`) of what `T1` has received, at
each of its places. -/
def Copies (x y : Sock) (got : List Byte) : Option Pc → Prop
  | none => Sock.Fed bufSize x got ∧ Sock.Fed bufSize y got
  | some .read => Sock.Fed bufSize x got ∧ Sock.Fed bufSize y got
  | some (.sendRemote buffer rest) =>
    ∃ g, got = g ++ buffer ∧ Sock.Sends bufSize x g buffer rest ∧ Sock.Fed bufSize y g
  | some (.sendDuplicate buffer rest) =>
    ∃ g, got = g ++ buffer ∧ Sock.Fed bufSize x got ∧ Sock.Sends bufSize y g buffer rest
  | some (.cleanup _) => Sock.Fed bufSize x got ∧ Sock.Fed bufSize y got
  | some .killed =>
    ∃ g buffer, got = g ++ buffer ∧ buffer.length ≤ bufSize ∧ Sock.Fed bufSize y g ∧
      (x.Closed ∧ Sock.Fed bufSize x g ∨ y.Closed ∧ Sock.Fed bufSize x got)

section Copies

variable {x y x' y' : Sock} {got : List Byte} {pc : Option Pc}

theorem Copies.later (h : Copies x y got pc) (hx : Sock.Later x x') (hy : Sock.Later y y') :
    Copies x' y' got pc := by
  match pc with
  | none => exact ⟨h.1.later hx, h.2.later hy⟩
  | some .read => exact ⟨h.1.later hx, h.2.later hy⟩
  | some (.sendRemote buffer rest) =>
    obtain ⟨g, hg, hsends, hfed⟩ := h
    exact ⟨g, hg, hsends.later hx, hfed.later hy⟩
  | some (.sendDuplicate buffer rest) =>
    obtain ⟨g, hg, hfed, hsends⟩ := h
    exact ⟨g, hg, hfed.later hx, hsends.later hy⟩
  | some (.cleanup ops) => exact ⟨h.1.later hx, h.2.later hy⟩
  | some .killed =>
    obtain ⟨g, buffer, hg, hlen, hfed, hclosed⟩ := h
    exact ⟨g, buffer, hg, hlen, hfed.later hy,
      hclosed.imp (fun hr => ⟨hx.closed hr.1, hr.2.later hx⟩)
        fun hr => ⟨hy.closed hr.1, hr.2.later hx⟩⟩

/-- How far the two streams can be apart from each other and from what has been received. -/
structure Apart (x y : Sock) (got : List Byte) : Prop where
  remote : x.sent <+: got
  duplicate : y.sent <+: got
  ahead : y.sent.length ≤ x.sent.length + x.slack bufSize
  received : got.length ≤ y.sent.length + bufSize + y.slack bufSize

theorem Apart.of_fed (hx : Sock.Fed bufSize x got) (hy : Sock.Fed bufSize y got) :
    Apart x y got := by
  have hle := hy.sent.length_le
  have hxlost := hx.lost
  have hylost := hy.lost
  exact ⟨hx.sent, hy.sent, by omega, by omega⟩

theorem Copies.apart (h : Copies x y got pc) : Apart x y got := by
  match pc with
  | none => exact .of_fed h.1 h.2
  | some .read => exact .of_fed h.1 h.2
  | some (.sendRemote buffer rest) =>
    obtain ⟨g, rfl, hsends, hfed⟩ := h
    have hle := hfed.sent.length_le
    have hlost := hsends.lost
    have hylost := hfed.lost
    have hchunk := hsends.chunk
    refine ⟨hsends.sent, hfed.sent.trans (List.prefix_append g buffer), by omega, ?_⟩
    rw [List.length_append]
    omega
  | some (.sendDuplicate buffer rest) =>
    obtain ⟨g, rfl, hfed, hsends⟩ := h
    have hle := hsends.sent.length_le
    have hxlost := hfed.lost
    have hlost := hsends.lost
    have hchunk := hsends.chunk
    refine ⟨hfed.sent, hsends.sent, by omega, ?_⟩
    rw [List.length_append]
    omega
  | some (.cleanup ops) => exact .of_fed h.1 h.2
  | some .killed =>
    obtain ⟨g, buffer, rfl, hchunk, hfed, hclosed⟩ := h
    have hle := hfed.sent.length_le
    have hylost := hfed.lost
    have hprefix := List.prefix_append g buffer
    have hreceived : (g ++ buffer).length ≤ y.sent.length + bufSize + y.slack bufSize := by
      rw [List.length_append]
      omega
    rcases hclosed with ⟨-, hx⟩ | ⟨-, hx⟩
    · have hxlost := hx.lost
      exact ⟨hx.sent.trans hprefix, hfed.sent.trans hprefix, by omega, hreceived⟩
    · have hxlost := hx.lost
      have hglen := hprefix.length_le
      exact ⟨hx.sent, hfed.sent.trans hprefix, by omega, hreceived⟩

end Copies

/-- The invariant of the three streams. The last two fields are about a teardown under way: `T2`
shuts the duplicate down before production, so that the duplicate does not get ahead of it. -/
structure Streams (s : State) : Prop extends Closings s where
  received : s.got ++ (s.sock .client).inq <+: s.said .client
  whole : (s.sock .client).shut = false → s.got ++ (s.sock .client).inq = s.said .client
  copies : Copies (s.sock .remote) (s.sock .duplicate) s.got s.t1
  order : (∀ ops, s.t1 ≠ some (.cleanup ops)) → (s.sock .remote).shut = true →
    (s.sock .duplicate).shut = true
  behind : (s.sock .remote).rst = false →
    (s.sock .duplicate).sent.length ≤ (s.sock .remote).sent.length

namespace Streams

variable {s t : State} {a : Act} {k : ℕ} {w : SockId → Sock}

theorem handling (hw : ∀ i, (w i).Fresh) : Streams (handling w) where
  toClosings := .handling hw
  received := List.prefix_rfl
  whole _ := rfl
  copies := ⟨.of_fresh (hw .remote), .of_fresh (hw .duplicate)⟩
  order _ h := by
    rw [Lockstep.handling, (hw .remote).shut] at h
    cases h
  behind _ := by rw [Lockstep.handling, (hw .duplicate).sent]; exact Nat.zero_le _

theorem behind_later (h : Streams s)
    (hremote : Sock.Later (s.sock .remote) (t.sock .remote))
    (hduplicate : Sock.Later (s.sock .duplicate) (t.sock .duplicate))
    (hrst : (t.sock .remote).rst = false) :
    (t.sock .duplicate).sent.length ≤ (t.sock .remote).sent.length := by
  rw [hremote.sent, hduplicate.sent]
  refine h.behind (Bool.eq_false_iff.mpr fun hs => ?_)
  rw [hremote.rst hs] at hrst
  cases hrst

/-- A peer acts. -/
theorem acted (h : Streams s) {i : SockId} {ev : Sock.Peer} {x : Sock}
    (hx : (s.sock i).peer ev = some x) (hclosings : Closings (s.acted i ev x)) :
    Streams (s.acted i ev x) := by
  have hlater (j : SockId) : Sock.Later (s.sock j) ((s.acted i ev x).sock j) := by
    obtain ⟨hsock, -⟩ | ⟨rfl, hsock, -⟩ := s.acted_cases i j x ev
    · rw [hsock]
      exact .refl _
    · rw [hsock]
      exact .of_peer hx
  have hshut (j : SockId) : ((s.acted i ev x).sock j).shut = (s.sock j).shut := by
    obtain ⟨hsock, -⟩ | ⟨rfl, hsock, -⟩ := s.acted_cases i j x ev
    · rw [hsock]
    · rw [hsock, (Sock.peer_eq hx).2]
  have hclient : s.got ++ ((s.acted i ev x).sock .client).inq <+: (s.acted i ev x).said .client ∧
      ((s.sock .client).shut = false →
        s.got ++ ((s.acted i ev x).sock .client).inq = (s.acted i ev x).said .client) := by
    obtain ⟨hsock, hsaid⟩ | ⟨rfl, hsock, hsaid⟩ := s.acted_cases i .client x ev
    · rw [hsock, hsaid]
      exact ⟨h.received, h.whole⟩
    · rw [hsock, hsaid]
      obtain ⟨hinq, hlost, -⟩ := Sock.peer_payload hx
      by_cases hclosed : (s.sock .client).shut = true
      · rw [hlost hclosed]
        refine ⟨h.received.trans (List.prefix_append _ _), fun hopen => ?_⟩
        rw [hclosed] at hopen
        cases hopen
      · have hopen := Bool.eq_false_iff.mpr hclosed
        rw [hinq hopen, ← List.append_assoc, h.whole hopen]
        exact ⟨List.prefix_rfl, fun _ => rfl⟩
  exact ⟨hclosings, hclient.1, fun hopen => hclient.2 (hshut .client ▸ hopen),
    h.copies.later (hlater .remote) (hlater .duplicate),
    fun hloop hremote =>
      (hshut .duplicate).trans (h.order hloop ((hshut .remote).symm.trans hremote)),
    h.behind_later (t := s.acted i ev x) (hlater .remote) (hlater .duplicate)⟩

/-- `T2` takes a step. -/
theorem replied (h : Streams s) {pc : Synch.Pc} {u : Synch.State} (hpc : s.t2 = some pc)
    (hu : Synch.Trans (s.replier pc) (.step k) u) (hclosings : Closings (s.replied u)) :
    Streams (s.replied u) := by
  have hremote : Sock.Later (s.sock .remote) (u.sock .remote) := reply_later hu (by simp)
  have hduplicate : Sock.Later (s.sock .duplicate) (u.sock .duplicate) := reply_later hu (by simp)
  have hinq : (u.sock .client).inq = (s.sock .client).inq := reply_inq hu
  refine ⟨hclosings, ?_, fun hopen => ?_, h.copies.later hremote hduplicate,
    fun hloop hshut => ?_, h.behind_later (t := s.replied u) hremote hduplicate⟩
  · change s.got ++ (u.sock .client).inq <+: s.said .client
    rw [hinq]
    exact h.received
  · change s.got ++ (u.sock .client).inq = s.said .client
    rw [hinq]
    refine h.whole (Bool.eq_false_iff.mpr fun hshut => ?_)
    rw [show ((s.replied u).sock .client).shut = true from (reply_mono hu .client).1 hshut] at hopen
    cases hopen
  · rcases reply_shut hu (j := .remote) hshut with hshut | ⟨ops, hops⟩
    · exact hduplicate.shut (h.order hloop hshut)
    · obtain rfl : pc = .cleanup (.shutdown .remote :: ops) := hops
      exact hduplicate.shut (Shutting.duplicate_first (h.reply _ hpc))

/-- `T1` receives from the client. -/
theorem read (h : Streams s) {r : Ret} {x : Sock} (hpc : s.t1 = some .read)
    (hx : (s.sock .client).recv bufSize k = some (r, x))
    (hclosings : Closings
      { s.goto .client x (State.afterRead r) with got := s.got ++ Synch.data r }) :
    Streams { s.goto .client x (State.afterRead r) with got := s.got ++ Synch.data r } := by
  have hcopies := h.copies
  rw [hpc] at hcopies
  have hremote : (s.goto .client x (State.afterRead r)).sock .remote = s.sock .remote :=
    s.goto_sock_of_ne _ _ (by simp)
  have hduplicate : (s.goto .client x (State.afterRead r)).sock .duplicate = s.sock .duplicate :=
    s.goto_sock_of_ne _ _ (by simp)
  have hinq : (s.sock .client).inq = Synch.data r ++ x.inq := (Synch.recv_duplicate hx).1
  refine ⟨hclosings, ?_, fun hopen => ?_, ?_, fun hloop hshut => ?_, fun hrst => ?_⟩
  · change s.got ++ Synch.data r ++ ((s.goto .client x (State.afterRead r)).sock .client).inq <+:
      s.said .client
    rw [State.goto_sock_self, List.append_assoc, ← hinq]
    exact h.received
  · change ((s.goto .client x (State.afterRead r)).sock .client).shut = false at hopen
    change s.got ++ Synch.data r ++ ((s.goto .client x (State.afterRead r)).sock .client).inq =
      s.said .client
    rw [State.goto_sock_self, (Sock.recv_eq hx).1] at hopen
    rw [State.goto_sock_self, List.append_assoc, ← hinq]
    exact h.whole hopen
  · change Copies ((s.goto .client x (State.afterRead r)).sock .remote)
      ((s.goto .client x (State.afterRead r)).sock .duplicate) (s.got ++ Synch.data r)
      (some (State.afterRead r))
    rw [hremote, hduplicate]
    cases r with
    | bytes bs =>
      obtain ⟨hbs, hlen, -⟩ := Sock.recv_bytes hx
      exact ⟨s.got, rfl, hcopies.1.sends hlen hbs, hcopies.2⟩
    | eof =>
      rw [Synch.data, List.append_nil]
      exact hcopies
    | error =>
      rw [Synch.data, List.append_nil]
      exact hcopies
  · change ((s.goto .client x (State.afterRead r)).sock .remote).shut = true at hshut
    change ((s.goto .client x (State.afterRead r)).sock .duplicate).shut = true
    rw [hremote] at hshut
    rw [hduplicate]
    exact h.order (by simp [hpc]) hshut
  · change ((s.goto .client x (State.afterRead r)).sock .remote).rst = false at hrst
    change ((s.goto .client x (State.afterRead r)).sock .duplicate).sent.length ≤
      ((s.goto .client x (State.afterRead r)).sock .remote).sent.length
    rw [hremote] at hrst
    rw [hremote, hduplicate]
    exact h.behind hrst

/-- `T1` sends to production. -/
theorem sendRemote (h : Streams s) {buffer rest : List Byte} {r : Sock.Sending} {x : Sock}
    (hpc : s.t1 = some (.sendRemote buffer rest))
    (hx : (s.sock .remote).send k buffer rest = some (r, x))
    (hclosings : Closings (s.goto .remote x (State.afterRemote buffer r))) :
    Streams (s.goto .remote x (State.afterRemote buffer r)) := by
  have hcopies := h.copies
  rw [hpc] at hcopies
  obtain ⟨g, hg, hsends, hfed⟩ := hcopies
  have hclient : (s.goto .remote x (State.afterRemote buffer r)).sock .client = s.sock .client :=
    s.goto_sock_of_ne _ _ (by simp)
  have hduplicate :
      (s.goto .remote x (State.afterRemote buffer r)).sock .duplicate = s.sock .duplicate :=
    s.goto_sock_of_ne _ _ (by simp)
  have heq := (Sock.send_eq hx).1
  refine ⟨hclosings, hclient ▸ h.received, fun hopen => hclient ▸ h.whole (hclient ▸ hopen), ?_,
    fun hloop hshut => ?_, fun hrst => ?_⟩
  · rw [State.goto_sock_self, hduplicate]
    cases r with
    | more rest' => exact ⟨g, hg, hsends.more hx, hfed⟩
    | returned => exact ⟨g, hg, hg ▸ hsends.returned hx, hfed.sends hsends.chunk hsends.ne_nil⟩
    | sigpipe =>
      obtain ⟨rfl, hclosed⟩ := Sock.send_sigpipe hx
      exact ⟨g, buffer, hg, hsends.chunk, hfed, Or.inl ⟨hclosed, hsends.killed hx⟩⟩
  · rw [State.goto_sock_self, heq] at hshut
    rw [hduplicate]
    exact h.order (by simp [hpc]) hshut
  · rw [State.goto_sock_self, heq] at hrst
    rw [State.goto_sock_self, hduplicate]
    exact (h.behind hrst).trans (Sock.send_sent hx).length_le

/-- `T1` sends to the duplicate. -/
theorem sendDuplicate (h : Streams s) {buffer rest : List Byte} {r : Sock.Sending} {x : Sock}
    (hpc : s.t1 = some (.sendDuplicate buffer rest))
    (hx : (s.sock .duplicate).send k buffer rest = some (r, x))
    (hclosings : Closings (s.goto .duplicate x (State.afterDuplicate buffer r))) :
    Streams (s.goto .duplicate x (State.afterDuplicate buffer r)) := by
  have hcopies := h.copies
  rw [hpc] at hcopies
  obtain ⟨g, hg, hfed, hsends⟩ := hcopies
  have hclient :
      (s.goto .duplicate x (State.afterDuplicate buffer r)).sock .client = s.sock .client :=
    s.goto_sock_of_ne _ _ (by simp)
  have hremote :
      (s.goto .duplicate x (State.afterDuplicate buffer r)).sock .remote = s.sock .remote :=
    s.goto_sock_of_ne _ _ (by simp)
  have heq := (Sock.send_eq hx).1
  have hcopies : Copies (s.sock .remote) x s.got (some (State.afterDuplicate buffer r)) := by
    cases r with
    | more rest' => exact ⟨g, hg, hfed, hsends.more hx⟩
    | returned => exact ⟨hfed, hg ▸ hsends.returned hx⟩
    | sigpipe =>
      obtain ⟨rfl, hclosed⟩ := Sock.send_sigpipe hx
      exact ⟨g, buffer, hg, hsends.chunk, hsends.killed hx, Or.inr ⟨hclosed, hfed⟩⟩
  refine ⟨hclosings, hclient ▸ h.received, fun hopen => hclient ▸ h.whole (hclient ▸ hopen), ?_,
    fun hloop hshut => ?_, fun hrst => ?_⟩
  · rw [State.goto_sock_self, hremote]
    exact hcopies
  · rw [hremote] at hshut
    rw [State.goto_sock_self, heq]
    exact h.order (by simp [hpc]) hshut
  · rw [hremote] at hrst
    rw [State.goto_sock_self, hremote]
    by_cases hclosed : (s.sock .duplicate).Closed
    · rw [(Sock.send_closed hclosed hx).1]
      exact h.behind hrst
    · -- the duplicate is open, and so is production, which has been sent all that was received
      have hopen : ¬ (s.sock .remote).Closed := by
        rintro (hshut | hrst')
        · exact hclosed (Or.inl (h.order (by simp [hpc]) hshut))
        · rw [hrst] at hrst'
          cases hrst'
      rw [hfed.eq hopen]
      exact hcopies.apart.duplicate.length_le

/-- `T1` shuts a connection down. -/
theorem cleanup (h : Streams s) {op : Op SockId} {ops : List (Op SockId)}
    (hpc : s.t1 = some (.cleanup (op :: ops))) (hclosings : Closings (s.apply ops op)) :
    Streams (s.apply ops op) := by
  have hcopies := h.copies
  rw [hpc] at hcopies
  cases op with
  | close i =>
    exact ⟨hclosings, h.received, h.whole, hcopies, fun hloop => absurd rfl (hloop ops), h.behind⟩
  | shutdown i =>
    have hlater (j : SockId) : Sock.Later (s.sock j)
        ((s.goto i (s.sock i).shutdown (.cleanup ops)).sock j) := by
      obtain hsock | ⟨rfl, hsock⟩ := s.goto_cases i j (s.sock i).shutdown (.cleanup ops)
      · rw [hsock]
        exact .refl _
      · rw [hsock]
        exact .of_shutdown _
    have hinq : ((s.goto i (s.sock i).shutdown (.cleanup ops)).sock .client).inq =
        (s.sock .client).inq := by
      obtain hsock | ⟨rfl, hsock⟩ := s.goto_cases i .client (s.sock i).shutdown (.cleanup ops)
      · rw [hsock]
      · rw [hsock]
        rfl
    refine ⟨hclosings, ?_, fun hopen => ?_, ?_, fun hloop => absurd rfl (hloop ops), fun hrst => ?_⟩
    · rw [State.apply, hinq]
      exact h.received
    · rw [State.apply, hinq]
      refine h.whole (Bool.eq_false_iff.mpr fun hshut => ?_)
      rw [State.apply, (hlater .client).shut hshut] at hopen
      cases hopen
    · have hcleanup : Copies (s.sock .remote) (s.sock .duplicate) s.got (some (.cleanup ops)) :=
        hcopies
      exact hcleanup.later (hlater .remote) (hlater .duplicate)
    · exact h.behind_later (t := s.goto i (s.sock i).shutdown (.cleanup ops)) (hlater .remote)
        (hlater .duplicate) hrst

/-- **The invariant of the streams.** -/
theorem step (h : Streams s) (hstep : lockstep.step s a = some t) : Streams t := by
  have hclosings := h.toClosings.step hstep
  cases trans_of_step hstep with
  | peer hx => exact h.acted hx hclosings
  | forkT1 hops =>
    have hcopies := h.copies
    rw [h.t1.mp (by rw [hops]; exact List.mem_cons_self)] at hcopies
    refine ⟨hclosings, h.received, h.whole, hcopies, fun _ => h.order fun ops hpc => ?_, h.behind⟩
    rw [h.t1.mp (by rw [hops]; exact List.mem_cons_self)] at hpc
    cases hpc
  | forkT2 hops => exact ⟨hclosings, h.received, h.whole, h.copies, h.order, h.behind⟩
  | close hops => exact ⟨hclosings, h.received, h.whole, h.copies, h.order, h.behind⟩
  | read hpc hx => exact h.read hpc hx hclosings
  | sendRemote hpc hx => exact h.sendRemote hpc hx hclosings
  | sendDuplicate hpc hx => exact h.sendDuplicate hpc hx hclosings
  | cleanup hpc => exact h.cleanup hpc hclosings
  | reply hpc hu => exact h.replied hpc hu hclosings

theorem run {as : List Act} (h : Streams s) (hrun : lockstep.run s as = some t) : Streams t :=
  Machine.invariant_of_step (fun _ _ _ h hstep => h.step hstep) h hrun

end Streams

/-! ### What production and the duplicate are sent -/

/-- What production and the duplicate have been sent: both a part of what the client has sent; the
duplicate no more than production, unless that has reset its connection; and neither far from the
other. While both connections are open the duplicate is at most a chunk behind, and not behind when
`T1` waits for the client. -/
structure InStep (s : State) : Prop where
  received : s.got ++ (s.sock .client).inq <+: s.said .client
  remote : (s.sock .remote).sent <+: s.got
  duplicate : (s.sock .duplicate).sent <+: s.got
  behind : (s.sock .remote).rst = false → (s.sock .duplicate).sent <+: (s.sock .remote).sent
  lag : ¬ (s.sock .duplicate).Closed → s.got.length ≤ (s.sock .duplicate).sent.length + bufSize
  level : s.t1 = some .read → ¬ (s.sock .remote).Closed → ¬ (s.sock .duplicate).Closed →
    (s.sock .remote).sent = s.got ∧ (s.sock .duplicate).sent = s.got
  ahead : (s.sock .duplicate).sent.length ≤ (s.sock .remote).sent.length + (2 * bufSize - 1)
  short : s.got.length ≤ (s.sock .duplicate).sent.length + (3 * bufSize - 1)

theorem Streams.inStep {s : State} (h : Streams s) : InStep s := by
  have hapart := h.copies.apart
  have hremote := Sock.slack_le bufSize (s.sock .remote)
  have hduplicate := Sock.slack_le bufSize (s.sock .duplicate)
  have hahead := hapart.ahead
  have hshort := hapart.received
  refine ⟨h.received, hapart.remote, hapart.duplicate, fun hrst => ?_, fun hopen => ?_,
    fun hpc hremote hduplicate => ?_, ?_, ?_⟩
  · exact List.prefix_of_prefix_length_le hapart.duplicate hapart.remote (h.behind hrst)
  · rwa [Sock.slack_open hopen, Nat.add_zero] at hshort
  · have hcopies := h.copies
    rw [hpc] at hcopies
    exact ⟨hcopies.1.eq hremote, hcopies.2.eq hduplicate⟩
  · simp only [bufSize] at hremote hahead ⊢
    omega
  · simp only [bufSize] at hduplicate hshort ⊢
    omega

/-- **Lockstep.** In every run of the synchronous mode, whatever the peers do, production and the
duplicate are sent the client's bytes in order and without a gap, and stay together. -/
theorem lockstep_streams {w : SockId → Sock} {as : List Act} {s : State}
    (hw : ∀ i, (w i).Fresh) (hrun : lockstep.run (handling w) as = some s) : InStep s :=
  ((Streams.handling hw).run hrun).inStep

/-- Three open connections. -/
def connected : SockId → Sock := fun _ => { room := 8 }

theorem connected_fresh (i : SockId) : (connected i).Fresh := ⟨⟨rfl, rfl, rfl⟩, rfl, rfl⟩

/-- The client sends a chunk of one byte, and `T1` deals with it. -/
def chunk (b : Byte) : List Act :=
  [.peer .client (.deliver [b]), .forward 1, .forward 1, .forward 1]

/-- The duplicate resets its connection after the first of three chunks. -/
def duplicateResets : List Act :=
  List.replicate 5 .handler ++ chunk 1 ++ [.peer .duplicate .reset] ++ chunk 2 ++ chunk 3

theorem lockstep_streams_duplicateResets :
    ∃ s, lockstep.run (handling connected) duplicateResets = some s ∧ InStep s := by
  obtain ⟨s, hrun⟩ : ∃ s, lockstep.run (handling connected) duplicateResets = some s := ⟨_, rfl⟩
  exact ⟨s, hrun, lockstep_streams connected_fresh hrun⟩

/-! ### The duplicate's buffer -/

/-- The space that an action makes in the send buffer of a connection. -/
def Act.drains (i : SockId) : Act → ℕ
  | .peer j ev => if j = i then ev.drained else 0
  | .handler => 0
  | .forward _ => 0
  | .reply _ => 0

/-- What a peer takes of what has been sent to it in a run. -/
def drained (i : SockId) (as : List Act) : ℕ := (as.map (Act.drains i)).sum

section Budget

variable {s t : State} {a : Act}

theorem budget_of_step (h : Trans s a t) (j : SockId) :
    (t.sock j).budget = (s.sock j).budget + a.drains j := by
  cases a with
  | peer i ev =>
    cases h with
    | @peer _ _ x hx =>
      change (Function.update s.sock i x j).budget = _
      by_cases hj : j = i
      · subst hj
        rw [Function.update_self, Sock.peer_budget hx, Act.drains, if_pos rfl]
      · rw [Function.update_of_ne hj, Act.drains, if_neg (Ne.symm hj), Nat.add_zero]
  | handler => cases h <;> rfl
  | forward k =>
    obtain heq | ⟨-, len, r, hr⟩ | ⟨-, b, rest, r, hr⟩ | ⟨ops, -, heq⟩ := forward_sock h j
    · rw [heq]
      rfl
    · exact Sock.recv_budget hr
    · exact Sock.send_budget hr
    · rw [heq, Sock.shutdown_budget]
      rfl
  | reply k =>
    cases h with
    | @reply _ pc u hpc hu =>
      obtain heq | ⟨-, len, r, hr⟩ | ⟨-, b, rest, r, hr⟩ | ⟨ops, -, -, heq⟩ := reply_sock hu j
      · exact congrArg Sock.budget heq
      · exact Sock.recv_budget hr
      · exact Sock.send_budget hr
      · exact (congrArg Sock.budget heq).trans (Sock.shutdown_budget _)

theorem budget_of_run {as : List Act} (h : lockstep.run s as = some t) (j : SockId) :
    (t.sock j).budget = (s.sock j).budget + drained j as := by
  induction as generalizing s with
  | nil =>
    obtain rfl := Option.some.inj h
    rfl
  | cons a as ih =>
    obtain ⟨u, hu, h⟩ := (Machine.run_cons_eq_some _).mp h
    rw [ih h, budget_of_step (trans_of_step hu), drained, drained, List.map_cons, List.sum_cons,
      Nat.add_assoc]

end Budget

/-- **Backpressure.** What is taken from the client, and what production is served of it, is bounded
by what the duplicate takes of its copy: a duplicate that stops reading stops the client. -/
theorem lockstep_backpressure {w : SockId → Sock} {as : List Act} {s : State}
    (hw : ∀ i, (w i).Fresh) (hrun : lockstep.run (handling w) as = some s) :
    (s.sock .remote).sent.length ≤ s.got.length ∧
      s.got.length ≤ (w .duplicate).room + drained .duplicate as + (3 * bufSize - 1) := by
  have hstep := lockstep_streams hw hrun
  have hbudget := budget_of_run hrun .duplicate
  have hstart : ((handling w).sock .duplicate).budget = (w .duplicate).room := by
    rw [Sock.budget, handling, (hw .duplicate).sent, List.length_nil, Nat.zero_add]
  have hle : (s.sock .duplicate).sent.length ≤ (s.sock .duplicate).budget := Nat.le_add_right _ _
  have hshort := hstep.short
  refine ⟨hstep.remote.length_le, ?_⟩
  rw [hbudget, hstart] at hle
  omega

theorem lockstep_backpressure_duplicateResets :
    ∃ s, lockstep.run (handling connected) duplicateResets = some s ∧
      (s.sock .remote).sent.length ≤ s.got.length ∧
        s.got.length ≤ 8 + drained .duplicate duplicateResets + (3 * bufSize - 1) := by
  obtain ⟨s, hrun⟩ : ∃ s, lockstep.run (handling connected) duplicateResets = some s := ⟨_, rfl⟩
  exact ⟨s, hrun, lockstep_backpressure connected_fresh hrun⟩

/-! ### Where a handled client ends -/

/-- No process takes a step. -/
structure Quiet (s : State) : Prop where
  handler : lockstep.step s .handler = none
  forward : ∀ k, lockstep.step s (.forward k) = none
  reply : ∀ k, lockstep.step s (.reply k) = none

/-- A `send` waits for room on an open connection. -/
def Full (x : Sock) : Prop := x.room = 0 ∧ ¬ x.Closed

/-- What `T1` waits for. -/
inductive ForwardWaits (s : State) : Prop
  | client (pc : s.t1 = some .read) (h : (s.sock .client).Silent)
  | remote {buffer rest : List Byte} (pc : s.t1 = some (.sendRemote buffer rest))
      (h : Full (s.sock .remote))
  | duplicate {buffer rest : List Byte} (pc : s.t1 = some (.sendDuplicate buffer rest))
      (h : Full (s.sock .duplicate))

/-- What `T2` waits for. -/
inductive ReplyWaits (s : State) : Prop
  | remote (pc : s.t2 = some .read) (h : (s.sock .remote).Silent)
  | client {buffer rest : List Byte} (pc : s.t2 = some (.send buffer rest))
      (h : Full (s.sock .client))
  | duplicate {n : ℕ} (pc : s.t2 = some (.discard n)) (h : (s.sock .duplicate).Silent)

/-- `T1` has been killed, by the end of one of the two connections that it sends on. -/
def ForwardKilled (s : State) : Prop :=
  s.t1 = some .killed ∧ ((s.sock .remote).Closed ∨ (s.sock .duplicate).Closed)

/-- `T2` has been killed, by the end of the client's connection. -/
def ReplyKilled (s : State) : Prop := s.t2 = some .killed ∧ (s.sock .client).Closed

/-- How things stand when no process takes a step: both workers are gone; or no connection has been
shut down, and of the workers one waits while the other one waits or has been killed. -/
inductive Settled (s : State) : Prop
  | gone (t1 : s.t1 = some (.cleanup []) ∨ ForwardKilled s)
      (t2 : s.t2 = some (.cleanup []) ∨ ReplyKilled s)
  | open (shut : ∀ i, (s.sock i).shut = false)
      (waits : ForwardWaits s ∧ (ReplyWaits s ∨ ReplyKilled s) ∨ ForwardKilled s ∧ ReplyWaits s)

namespace Streams

variable {s : State}

theorem forward_quiet (h : Streams s) (hquiet : Quiet s) (hhandler : s.handler = []) :
    s.t1 = some (.cleanup []) ∨ ForwardKilled s ∨ ForwardWaits s := by
  have hstep (k : ℕ) : s.forwardDataSynch k = none := hquiet.forward k
  have hcopies := h.copies
  match hpc : s.t1 with
  | none =>
    have hfork := h.t1.mpr hpc
    rw [hhandler] at hfork
    cases hfork
  | some .read =>
    refine Or.inr (Or.inr (.client hpc (Sock.silent_of_recv (by decide : 0 < bufSize) ?_)))
    intro k
    have hnone := hstep k
    simp only [State.forwardDataSynch, hpc] at hnone
    exact Option.map_eq_none_iff.mp hnone
  | some (.sendRemote buffer rest) =>
    rw [hpc] at hcopies
    obtain ⟨g, -, hsends, -⟩ := hcopies
    refine Or.inr (Or.inr (.remote hpc (@Sock.room_of_send _ buffer _ hsends.pending ?_)))
    intro k
    have hnone := hstep k
    simp only [State.forwardDataSynch, hpc] at hnone
    exact Option.map_eq_none_iff.mp hnone
  | some (.sendDuplicate buffer rest) =>
    rw [hpc] at hcopies
    obtain ⟨g, -, -, hsends⟩ := hcopies
    refine Or.inr (Or.inr (.duplicate hpc (@Sock.room_of_send _ buffer _ hsends.pending ?_)))
    intro k
    have hnone := hstep k
    simp only [State.forwardDataSynch, hpc] at hnone
    exact Option.map_eq_none_iff.mp hnone
  | some (.cleanup []) => exact Or.inl rfl
  | some (.cleanup (op :: ops)) =>
    have hnone := hstep 0
    simp [State.forwardDataSynch, hpc] at hnone
  | some .killed =>
    rw [hpc] at hcopies
    obtain ⟨g, buffer, -, -, -, hclosed⟩ := hcopies
    exact Or.inr (Or.inl ⟨hpc, hclosed.imp And.left And.left⟩)

theorem reply_quiet (h : Streams s) (hquiet : Quiet s) (hhandler : s.handler = []) :
    s.t2 = some (.cleanup []) ∨ ReplyKilled s ∨ ReplyWaits s := by
  have hstep (k : ℕ) : s.receiveDataSynch k = none := hquiet.reply k
  match hpc : s.t2 with
  | none =>
    have hfork := h.t2.mpr hpc
    rw [hhandler] at hfork
    cases hfork
  | some .read =>
    refine Or.inr (Or.inr (.remote hpc (Sock.silent_of_recv (by decide : 0 < bufSize) ?_)))
    intro k
    have hnone := hstep k
    simp only [State.receiveDataSynch, hpc, Option.bind_some, Synch.State.receiveDataSynch,
      State.replier, Option.map_map] at hnone
    exact Option.map_eq_none_iff.mp hnone
  | some (.send buffer rest) =>
    refine Or.inr (Or.inr (.client hpc (@Sock.room_of_send _ buffer _ (h.reply _ hpc).1 ?_)))
    intro k
    have hnone := hstep k
    simp only [State.receiveDataSynch, hpc, Option.bind_some, Synch.State.receiveDataSynch,
      State.replier, Option.map_map] at hnone
    exact Option.map_eq_none_iff.mp hnone
  | some (.discard n) =>
    refine Or.inr (Or.inr (.duplicate hpc (Sock.silent_of_recv (h.reply _ hpc) ?_)))
    intro k
    have hnone := hstep k
    simp only [State.receiveDataSynch, hpc, Option.bind_some, Synch.State.receiveDataSynch,
      State.replier, Option.map_map] at hnone
    exact Option.map_eq_none_iff.mp hnone
  | some (.cleanup []) => exact Or.inl rfl
  | some (.cleanup (op :: ops)) =>
    have hnone := hstep 0
    simp [State.receiveDataSynch, hpc, Synch.State.receiveDataSynch, State.replier] at hnone
  | some .killed => exact Or.inr (Or.inl ⟨hpc, h.reply _ hpc⟩)

/-- `handle_client` waits for nothing. -/
theorem handler_quiet (h : Streams s) (hquiet : lockstep.step s .handler = none) :
    s.handler = [] := by
  have hsuffix := h.handler
  change s.handlerStep = none at hquiet
  unfold State.handlerStep at hquiet
  split at hquiet
  · cases hquiet
  · cases hquiet
  · next hops =>
    rw [hops] at hsuffix
    simp [handleClient, List.suffix_cons_iff] at hsuffix
  · next hops =>
    rw [hops] at hsuffix
    simp [handleClient, List.suffix_cons_iff] at hsuffix
  · cases hquiet
  · assumption

/-- A worker that waits does so on a connection that has not been shut down. -/
theorem not_forwardWaits (hshut : ∀ i, (s.sock i).shut = true) : ¬ ForwardWaits s := by
  rintro (⟨-, h⟩ | ⟨-, h⟩ | ⟨-, h⟩)
  · exact h.not_closed (Or.inl (hshut _))
  · exact h.2 (Or.inl (hshut _))
  · exact h.2 (Or.inl (hshut _))

theorem not_replyWaits (hshut : ∀ i, (s.sock i).shut = true) : ¬ ReplyWaits s := by
  rintro (⟨-, h⟩ | ⟨-, h⟩ | ⟨-, h⟩)
  · exact h.not_closed (Or.inl (hshut _))
  · exact h.2 (Or.inl (hshut _))
  · exact h.not_closed (Or.inl (hshut _))

/-- Unless a worker is behind its loop, no connection has been shut down. -/
theorem all_open (h : Streams s) (ht1 : ForwardKilled s ∨ ForwardWaits s)
    (ht2 : ReplyKilled s ∨ ReplyWaits s) (i : SockId) : (s.sock i).shut = false := by
  refine Bool.eq_false_iff.mpr fun hshut => ?_
  rcases h.shut i hshut with ⟨ops, hpc⟩ | ⟨ops, hpc⟩
  · rcases ht1 with ⟨hpc', -⟩ | ⟨hpc', -⟩ | ⟨hpc', -⟩ | ⟨hpc', -⟩ <;> cases hpc.symm.trans hpc'
  · rcases ht2 with ⟨hpc', -⟩ | ⟨hpc', -⟩ | ⟨hpc', -⟩ | ⟨hpc', -⟩ <;> cases hpc.symm.trans hpc'

end Streams

/-- **How a handled client ends.** When no process takes a step, both workers are gone, or one of
them waits and no connection has been shut down. So a worker that comes to the end of its source
ends the other one as well; one that is killed, as when the duplicate resets its connection, need
not, and then production and the client are left connected to a proxy that forwards nothing. -/
theorem lockstep_quiet {w : SockId → Sock} {as : List Act} {s : State}
    (hw : ∀ i, (w i).Fresh) (hrun : lockstep.run (handling w) as = some s) (hquiet : Quiet s) :
    Settled s := by
  have h := (Streams.handling hw).run hrun
  have hhandler := h.handler_quiet hquiet.handler
  rcases h.forward_quiet hquiet hhandler with hpc | hkilled | hwaits
  · have hshut := (h.forward _ hpc).all_shut
    rcases h.reply_quiet hquiet hhandler with hpc' | hkilled' | hwaits'
    · exact .gone (Or.inl hpc) (Or.inl hpc')
    · exact .gone (Or.inl hpc) (Or.inr hkilled')
    · exact absurd hwaits' (Streams.not_replyWaits hshut)
  · rcases h.reply_quiet hquiet hhandler with hpc' | hkilled' | hwaits'
    · exact .gone (Or.inr hkilled) (Or.inl hpc')
    · exact .gone (Or.inr hkilled) (Or.inr hkilled')
    · exact .open (h.all_open (Or.inl hkilled) (Or.inr hwaits')) (Or.inr ⟨hkilled, hwaits'⟩)
  · rcases h.reply_quiet hquiet hhandler with hpc' | hkilled' | hwaits'
    · have hshut := Shutting.all_shut (h.reply _ hpc')
      exact absurd hwaits (Streams.not_forwardWaits hshut)
    · exact .open (h.all_open (Or.inr hwaits) (Or.inl hkilled')) (Or.inl ⟨hwaits, Or.inr hkilled'⟩)
    · exact .open (h.all_open (Or.inr hwaits) (Or.inr hwaits')) (Or.inl ⟨hwaits, Or.inl hwaits'⟩)

/-- The reset of the duplicate ends `T1` on the third chunk; `T2` waits for production. -/
theorem lockstep_quiet_duplicateResets :
    ∃ s, lockstep.run (handling connected) duplicateResets = some s ∧ ForwardKilled s ∧
      ReplyWaits s ∧ (s.sock .client).Live ∧ Settled s := by
  have hrun : lockstep.run (handling connected) duplicateResets = some _ := rfl
  exact ⟨_, hrun, ⟨rfl, Or.inr (Or.inr rfl)⟩, .remote rfl ⟨⟨rfl, rfl, rfl⟩, rfl, rfl⟩,
    ⟨rfl, rfl, rfl⟩, lockstep_quiet connected_fresh hrun ⟨rfl, fun _ => rfl, fun _ => rfl⟩⟩

end Parikshan.Duplicator.Lockstep
