import Parikshan.Aggregator.Isolation
import Parikshan.Aggregator.Sessions
import Parikshan.Posix.Relay

/-!
# A production connection as a relay

The two forwarders of a production connection relay between the client and the backend, and the
second one copies the responses to a pipe as well. They are not forked at once: the backend may
have answered, and the first forwarder may have come to its end and shut both sockets down, before
the second one exists. A child that has not been forked yet is counted with the descriptors that it
will be given, and the child that the first forwarder forks when it falls through has no sockets.

What a socket has been sent is what the kernel has accepted for its peer. When a byte arrives at a
socket that has been shut down the kernel resets the connection, and what its peer has not received
until then is lost; so nothing is said here of what the client and the backend receive.

## Main definitions

* `Heard`, `heard`: what the peers of a connection have sent in a run.
* `Waiting`, `Relaying`: a connection before and after its handler has connected to the backend.

## Main results

* `production_relay`: what is sent to the client and to the backend.
-/

namespace Parikshan.Aggregator

open Posix

/-! ### What is sent in a run -/

/-- What the client has sent since the connection was accepted, and the backend since the handler
connected to it, with the number of production connections accepted. -/
structure Heard where
  prods : ℕ := 0
  said : End → List Byte := fun _ => []

/-- What is heard in a step by production connection `i`. -/
def Heard.record (cfg : Config) (i : ℕ) (h : Heard) : Act → Heard
  | .accept addr =>
    if addr = cfg.remoteHost then
      { prods := h.prods + 1, said := if h.prods = i then fun _ => [] else h.said }
    else h
  | .peer k e ev =>
    if k = .prod i then { h with said := Function.update h.said e (h.said e ++ ev.payload) } else h
  | .connect j ok =>
    if j = i ∧ ok = true then { h with said := Function.update h.said .remote [] } else h
  | .count _ => h
  | .fork _ _ => h
  | .io _ _ _ => h

/-- What is heard in a run by production connection `i`. -/
def heard (cfg : Config) (i : ℕ) (as : List Act) : Heard := as.foldl (Heard.record cfg i) {}

theorem heard_concat (cfg : Config) (i : ℕ) (as : List Act) (a : Act) :
    heard cfg i (as ++ [a]) = (heard cfg i as).record cfg i a := by
  simp [heard]

/-- The peers of production connection `i` do not reset it. -/
def Act.Calm (i : ℕ) (a : Act) : Prop := ∀ e, a ≠ .peer (.prod i) e .reset

/-! ### The two forwarders -/

namespace Connection

/-- The descriptors of a child, or those that it is given when it is forked. -/
def fds (x : Connection) (pid : Pid) : Proc End PipeId :=
  match x.proc pid with
  | some p => p.fds
  | none => (x.proc .main).elim (Proc.release .exited) fun m => m.fds.goto .read

/-- The sockets of a connection, without pipes. -/
def world (x : Connection) : World End PipeId := { sock := x.sock, pipe := fun _ => {} }

variable {x : Connection} {pid : Pid} {p m : Process}

theorem fds_of_some (h : x.proc pid = some p) : x.fds pid = p.fds := by
  rw [fds, h]

theorem fds_of_none (h : x.proc pid = none) (hm : x.proc .main = some m) :
    x.fds pid = m.fds.goto .read := by
  rw [fds, h, hm]
  rfl

end Connection

/-- A connection that has not been accepted, or the handler of which has not connected to the
backend and perhaps never will. -/
structure Waiting (x : Connection) (said : End → List Byte) : Prop where
  alone : ∀ pid, pid ≠ .main → x.proc pid = none
  main : ∀ m, x.proc .main = some m → m.code = .createConnection ∨ m.code = .exited none
  sent : ∀ e, (x.sock e).sent = []
  shut : (x.sock .client).shut = false
  rst : (x.sock .client).rst = false
  err : (x.sock .client).err = false
  inq : (x.sock .client).inq = said .client

/-- A connection the handler of which has connected to the backend. -/
structure Relaying (x : Connection) (said : End → List Byte) : Prop where
  main : ∃ m, x.proc .main = some m ∧ m.code ≠ .createConnection ∧
    ((∃ c, m.code = .fork2 c) ∨ m.code.Forked → ∃ p, x.proc .first = some p)
  relay : Relay x.world (x.fds .first) (x.fds .second) .client .remote (said .client)
    (said .remote)

section Steps

variable {x : Connection} {said : End → List Byte} {p q : Process} {pid : Pid}

/-- A step of a peer that does not reset the connection. -/
theorem Waiting.peer (h : Waiting x said) {e : End} {ev : Sock.Peer} {y : Sock}
    (hreset : ev ≠ .reset) (hy : (x.sock e).peer ev = some y) :
    Waiting { x with sock := Function.update x.sock e y }
      (Function.update said e (said e ++ ev.payload)) := by
  obtain ⟨hissued, hshut⟩ := Sock.peer_eq hy
  have hsent (e' : End) : (Function.update x.sock e y e').sent = [] := by
    by_cases he : e' = e
    · subst he
      rw [Function.update_self, Sock.sent, hissued]
      exact h.sent e'
    · rw [Function.update_of_ne he]
      exact h.sent e'
  cases e with
  | client =>
    obtain ⟨hrst, herr⟩ := (Sock.peer_side hy).2 hreset
    refine ⟨h.alone, h.main, hsent, ?_, ?_, ?_, ?_⟩ <;> simp only [Function.update_self]
    · exact hshut.trans h.shut
    · exact hrst.trans h.rst
    · exact herr.trans h.err
    · rw [(Sock.peer_payload hy).1 h.shut, h.inq]
  | remote =>
    have hclient : Function.update x.sock .remote y .client = x.sock .client :=
      Function.update_of_ne (by simp) ..
    refine ⟨h.alone, h.main, hsent, ?_, ?_, ?_, ?_⟩ <;> simp only [hclient]
    · exact h.shut
    · exact h.rst
    · exact h.err
    · rw [Function.update_of_ne (by simp)]
      exact h.inq

theorem Relaying.peer (h : Relaying x said) {e : End} {ev : Sock.Peer} {y : Sock}
    (hreset : ev ≠ .reset) (hy : (x.sock e).peer ev = some y) :
    Relaying { x with sock := Function.update x.sock e y }
      (Function.update said e (said e ++ ev.payload)) := by
  refine ⟨h.main, ?_⟩
  have hrelay := h.relay.peer (by simp) (fun _ => hreset) (j := e) (x := y) hy
  cases e with
  | client =>
    rw [if_pos rfl, if_neg (by simp)] at hrelay
    rw [Function.update_self, Function.update_of_ne (by simp)]
    exact hrelay
  | remote =>
    rw [if_pos rfl, if_neg (by simp)] at hrelay
    rw [Function.update_self, Function.update_of_ne (by simp)]
    exact hrelay

/-- The handler connects to the backend. -/
theorem Waiting.connect (h : Waiting x said) (hcode : q.code = .getCounters)
    (hsocks : ∀ e, q.fds.socks e = true) :
    Relaying (Connection.setProc { x with sock := Function.update x.sock .remote {} } .main q)
      (Function.update said .remote []) := by
  have hmain : (Connection.setProc { x with sock := Function.update x.sock .remote {} }
      .main q).proc .main = some q := Connection.setProc_proc_self ..
  have hfds (pid : Pid) (hpid : pid ≠ .main) :
      (Connection.setProc { x with sock := Function.update x.sock .remote {} } .main q).fds pid =
        q.fds.goto .read :=
    Connection.fds_of_none ((Connection.setProc_proc_of_ne _ hpid _).trans (h.alone pid hpid)) hmain
  refine ⟨⟨q, hmain, by simp [hcode], by simp [hcode, Code.Forked]⟩, ?_⟩
  rw [hfds .first (by simp), hfds .second (by simp)]
  have hholds : (q.fds.goto .read).HoldsSocks {End.client, End.remote} := fun _ e _ => hsocks e
  have hsent := h.sent .client
  refine ⟨hholds, hholds, ?_, ?_, ?_, Or.inl ⟨rfl, rfl, ?_, ?_⟩⟩
  · rintro e (rfl | rfl)
    · simp [Connection.world, h.rst, h.err]
    · simp [Connection.world]
  · refine ⟨fun _ _ hpc => (by cases hpc), ?_, fun _ => ?_, fun _ _ => ?_⟩ <;>
      simp [Connection.world, Proc.goto, Pc.unsent, h.inq, Sock.sent]
  · refine ⟨fun _ _ hpc => (by cases hpc), ?_, fun _ => ?_, fun _ _ => ?_⟩ <;>
      simp [Connection.world, Proc.goto, Pc.unsent, hsent]
  · simp [Connection.world, h.shut]
  · simp [Connection.world]

/-- The handler goes on in its counter section. -/
theorem Relaying.count (h : Relaying x said) (hp : x.proc .main = some p) {code : Code}
    (hfork : ∀ c, p.code ≠ .fork2 c) (hforked : ¬ p.code.Forked) (hl : Lineage x.proc)
    (hcode : (∃ c i, code = .increment c i) ∨ ∃ c, code = .fork1 c) :
    Relaying (x.setProc .main (p.goto code)) said := by
  have halone : ∀ pid, pid ≠ .main → x.proc pid = none := hl.alone fun m hm => by
    obtain rfl := Option.some.inj (hp.symm.trans hm)
    exact ⟨hfork, hforked⟩
  have hmain : (x.setProc .main (p.goto code)).proc .main = some (p.goto code) :=
    Connection.setProc_proc_self ..
  have hfds (pid : Pid) (hpid : pid ≠ .main) :
      (x.setProc .main (p.goto code)).fds pid = x.fds pid := by
    rw [Connection.fds_of_none ((Connection.setProc_proc_of_ne _ hpid _).trans (halone pid hpid))
      hmain, Connection.fds_of_none (halone pid hpid) hp]
    obtain ⟨c, i, rfl⟩ | ⟨c, rfl⟩ := hcode <;> rfl
  refine ⟨⟨_, hmain, ?_, ?_⟩, ?_⟩
  · rw [Process.goto_code]
    obtain ⟨c, i, rfl⟩ | ⟨c, rfl⟩ := hcode <;> simp
  · rw [Process.goto_code]
    obtain ⟨c, i, rfl⟩ | ⟨c, rfl⟩ := hcode <;> simp [Code.Forked]
  · rw [hfds .first (by simp), hfds .second (by simp)]
    exact h.relay

/-- The forks of a connection. A child gets the descriptors that it has been counted with. -/
theorem Relaying.fork {l : Ledger} (h : Relaying x said) (hx : ProdSession x l) {child : Pid}
    {code start : Code} (hp : x.proc pid = some p)
    (hfork : p.code.fork pid = some (code, child, start)) :
    Relaying ((x.setProc pid (p.goto code)).setProc child (p.child start)) said := by
  obtain ⟨hnone, -⟩ := hx.lineage.fork hp hfork
  obtain ⟨m, hm, hcreate, hfirst⟩ := h.main
  obtain ⟨c, ⟨rfl, hcode, rfl, rfl, rfl⟩ | ⟨hcode, rfl, rfl, ⟨rfl, rfl⟩ | ⟨rfl, rfl⟩⟩⟩ :=
    Code.fork_cases hfork
  · have hsecond : x.proc .second = none := hx.lineage.alone (fun m hm => by
      obtain rfl := Option.some.inj (hp.symm.trans hm)
      simp [hcode, Code.Forked]) .second (by simp)
    have hmain : ((x.setProc .main (p.goto (.fork2 c))).setProc .first
        (p.child (.call1 c))).proc .main = some (p.goto (.fork2 c)) :=
      (Connection.setProc_proc_of_ne _ (by simp) _).trans (Connection.setProc_proc_self ..)
    refine ⟨⟨_, hmain, by simp, fun _ => ⟨_, Connection.setProc_proc_self ..⟩⟩, ?_⟩
    have hrelay := h.relay
    rw [Connection.fds_of_none hnone hp, Connection.fds_of_none hsecond hp] at hrelay
    rw [Connection.fds_of_some (Connection.setProc_proc_self ..), Connection.fds_of_none
      (((Connection.setProc_proc_of_ne _ (by simp) _).trans
        (Connection.setProc_proc_of_ne _ (by simp) _)).trans hsecond) hmain]
    exact hrelay
  · obtain rfl := Option.some.inj (hp.symm.trans hm)
    obtain ⟨f, hf⟩ := hfirst (Or.inl ⟨c, hcode⟩)
    have hmain : ((x.setProc .main (p.goto (.exited (some c)))).setProc .second
        (p.child (.call2 c))).proc .main = some (p.goto (.exited (some c))) :=
      (Connection.setProc_proc_of_ne _ (by simp) _).trans (Connection.setProc_proc_self ..)
    have hf' : ((x.setProc .main (p.goto (.exited (some c)))).setProc .second
        (p.child (.call2 c))).proc .first = some f :=
      ((Connection.setProc_proc_of_ne _ (by simp) _).trans
        (Connection.setProc_proc_of_ne _ (by simp) _)).trans hf
    refine ⟨⟨_, hmain, by simp, fun _ => ⟨f, hf'⟩⟩, ?_⟩
    have hrelay := h.relay
    rw [Connection.fds_of_some hf, Connection.fds_of_none hnone hp] at hrelay
    rw [Connection.fds_of_some hf', Connection.fds_of_some (Connection.setProc_proc_self ..)]
    exact hrelay
  · have hleft : (x.fds .first).pc.inLoop = false := by
      by_contra hin
      have hsocks := h.relay.holds (by simpa using hin) .client (Set.mem_insert _ _)
      rw [Connection.fds_of_some hp] at hsocks
      simp [(hx.first p hp).closed (by simp [hcode]) .client] at hsocks
    have hmain : ((x.setProc .first (p.goto (.exited (some c)))).setProc .firstSecond
        (p.child (.call2 c))).proc .main = some m :=
      ((Connection.setProc_proc_of_ne _ (by simp) _).trans
        (Connection.setProc_proc_of_ne _ (by simp) _)).trans hm
    have hf : ((x.setProc .first (p.goto (.exited (some c)))).setProc .firstSecond
        (p.child (.call2 c))).proc .first = some (p.goto (.exited (some c))) :=
      (Connection.setProc_proc_of_ne _ (by simp) _).trans (Connection.setProc_proc_self ..)
    have hsecond : ((x.setProc .first (p.goto (.exited (some c)))).setProc .firstSecond
        (p.child (.call2 c))).fds .second = x.fds .second := by
      simp [Connection.fds, Connection.setProc]
    refine ⟨⟨m, hmain, hcreate, fun _ => ⟨_, hf⟩⟩, ?_⟩
    rw [Connection.fds_of_some hf, hsecond]
    exact h.relay.exit hleft rfl

/-- A child goes on. -/
theorem Relaying.setProc (h : Relaying x said) (hpid : pid ≠ .main) {f : End → Sock}
    (hrelay : Relay { sock := f, pipe := fun _ => {} }
      (if pid = .first then q.fds else x.fds .first)
      (if pid = .second then q.fds else x.fds .second) .client .remote (said .client)
      (said .remote)) :
    Relaying (Connection.setProc { x with sock := f } pid q) said := by
  obtain ⟨m, hm, hcreate, hfirst⟩ := h.main
  have hmain : (Connection.setProc { x with sock := f } pid q).proc .main = some m :=
    (Connection.setProc_proc_of_ne _ hpid.symm _).trans hm
  have hfds (pid' : Pid) : (Connection.setProc { x with sock := f } pid q).fds pid' =
      if pid = pid' then q.fds else x.fds pid' := by
    split_ifs with heq
    · subst heq
      exact Connection.fds_of_some (Connection.setProc_proc_self ..)
    · rw [Connection.fds, Connection.fds, Connection.setProc_proc_of_ne _ (Ne.symm heq), hmain, hm]
  refine ⟨⟨m, hmain, hcreate, fun hc => ?_⟩, ?_⟩
  · obtain ⟨p, hp⟩ := hfirst hc
    by_cases heq : pid = .first
    · subst heq
      exact ⟨q, Connection.setProc_proc_self ..⟩
    · exact ⟨p, (Connection.setProc_proc_of_ne _ (Ne.symm heq) _).trans hp⟩
  · rw [hfds, hfds]
    exact hrelay

end Steps

section Io

variable {cfg : Config} {s t : State} {i : ℕ} {pid : Pid} {c : Choice} {l : Ledger}
  {said : End → List Byte}

/-- A step of a process of the connection. -/
theorem Relaying.io (hs : Held s) (h : Relaying (s.conn (.prod i)) said)
    (hx : ProdSession (s.conn (.prod i)) l)
    (hstep : (aggregator cfg).step s (.io (.prod i) pid c) = some t) :
    Relaying (t.conn (.prod i)) said := by
  obtain ⟨p, L, hp, hL, hcase⟩ := step_io hstep
  have hfds := Connection.fds_of_some hp
  have hrelay := h.relay
  obtain ⟨d, hcode, rfl⟩ | ⟨d, q, hcode, hq, rfl⟩ := Process.loop_cases hL
  · cases pid with
    | main => exact absurd hcode ((hx.main p hp).noCall d).1
    | second => exact absurd hcode ((hx.second p hp).code d)
    | firstSecond => exact absurd hcode ((hx.firstSecond p hp).code d)
    | first =>
      rw [hfds] at hrelay
      obtain ⟨-, -, rfl⟩ | ⟨-, w, fds, hloop, rfl⟩ := hcase
      · rw [State.setProcess_conn_self]
        have hreturned : p.afterCall.fds = p.fds := by
          rw [Process.afterCall, hcode]
          rfl
        refine h.setProc (by simp) ?_
        rw [if_pos rfl, if_neg (by simp), hreturned]
        exact hrelay
      · rw [State.setProcess_conn_self, State.setWorld_conn_self]
        refine h.setProc (by simp) ?_
        rw [if_pos rfl, if_neg (by simp)]
        have hthere : Relay (s.world (.prod i)) p.fds ((s.conn (.prod i)).fds .second) .client
            .remote (said .client) (said .remote) := hrelay.of_sock rfl
        exact (hthere.step rfl rfl rfl (by simp) hloop).of_sock rfl
  · cases pid with
    | main => exact absurd hcode ((hx.main p hp).noCall d).2
    | first => exact absurd hcode ((hx.first p hp).code d)
    | second =>
      rw [hfds] at hrelay
      obtain ⟨-, hpc, rfl⟩ | ⟨-, w, fds, hloop, rfl⟩ := hcase
      · rw [State.setProcess_conn_self]
        have hreturned : p.afterCall.fds = Proc.release .exited := by
          rw [Process.afterCall, hcode]
          rfl
        refine h.setProc (by simp) ?_
        rw [if_neg (by simp), if_pos rfl, hreturned]
        exact (hrelay.swap.exit (by rw [hpc]; rfl) rfl).swap
      · rw [State.setProcess_conn_self, State.setWorld_conn_self]
        refine h.setProc (by simp) ?_
        rw [if_neg (by simp), if_pos rfl]
        have hthere : Relay (s.world (.prod i)) p.fds ((s.conn (.prod i)).fds .first) .remote
            .client (said .remote) (said .client) := hrelay.swap.of_sock rfl
        exact (hthere.forward rfl rfl (fun r _ => hs.hasRd r) (by simp) hloop).swap.of_sock rfl
    | firstSecond =>
      obtain ⟨-, -, rfl⟩ | ⟨-, w, fds, hloop, rfl⟩ := hcase
      · rw [State.setProcess_conn_self]
        refine h.setProc (by simp) ?_
        rw [if_neg (by simp), if_neg (by simp)]
        exact hrelay
      · rw [State.setProcess_conn_self, State.setWorld_conn_self]
        refine h.setProc (by simp) ?_
        rw [if_neg (by simp), if_neg (by simp), ((hx.firstSecond p hp).step hloop).2.1]
        exact hrelay

end Io

/-! ### Runs -/

/-- The invariant of the runs in which the peers of production connection `i` have sent what `h`
has heard. -/
structure Forwards (i : ℕ) (s : State) (h : Heard) : Prop where
  held : Held s
  vacant : Vacant s
  prods : s.prods = h.prods
  session : ∃ l, ProdSession (s.conn (.prod i)) l
  phase : Waiting (s.conn (.prod i)) h.said ∨ Relaying (s.conn (.prod i)) h.said

namespace Forwards

variable {cfg : Config} {s t : State} {i : ℕ} {h : Heard} {a : Act}

theorem listening (cap : PipeId → ℕ) (i : ℕ) : Forwards i (listening cap) {} where
  held := .listening cap
  vacant := .listening cap
  prods := rfl
  session := ⟨{}, .of_main ⟨fun _ _ => rfl, fun _ hm => by cases hm⟩ rfl⟩
  phase := Or.inl ⟨fun _ _ => rfl, fun _ hm => (by cases hm), fun _ => rfl, rfl, rfl, rfl, rfl⟩

/-- A step that leaves the connection alone. -/
theorem of_conn (hs : Forwards i s h) (hstep : (aggregator cfg).step s a = some t)
    (hprods : t.prods = s.prods) (hconn : t.conn (.prod i) = s.conn (.prod i)) :
    Forwards i t h where
  held := hs.held.step hstep
  vacant := hs.vacant.step hstep
  prods := hprods.trans hs.prods
  session := hconn ▸ hs.session
  phase := hconn ▸ hs.phase

/-- The server accepts a connection. -/
theorem accept (hs : Forwards i s h) {addr : String}
    (hstep : (aggregator cfg).step s (.accept addr) = some t) :
    Forwards i t (h.record cfg i (.accept addr)) := by
  by_cases haddr : addr = cfg.remoteHost
  · have ht : t = { s with
        prods := s.prods + 1
        conn := Function.update s.conn (.prod s.prods) (accepted s.server .createConnection) } := by
      rw [← Option.some.inj hstep, State.accept, if_pos haddr]
    have hheld := hs.held.step hstep
    have hvacant := hs.vacant.step hstep
    rw [Heard.record, if_pos haddr, ← hs.prods]
    by_cases hi : s.prods = i
    · have hconn : t.conn (.prod i) = accepted s.server .createConnection := by
        rw [ht, ← hi]
        exact Function.update_self ..
      have hchildren (pid : Pid) (hpid : pid ≠ .main) :
          (accepted s.server .createConnection).proc pid = none := accepted_proc_of_ne hpid
      rw [if_pos hi]
      refine ⟨hheld, hvacant, by rw [ht], ⟨{}, ?_⟩, Or.inl ?_⟩
      · rw [hconn]
        refine .of_main ⟨hchildren, fun m hm => ?_⟩ rfl
        obtain rfl := Option.some.inj hm
        exact ⟨by simp, fun _ e _ he => by simpa using he,
          fun _ => ⟨fun q => hs.held.rd q, fun q => hs.held.wr q⟩⟩
      · rw [hconn]
        refine ⟨hchildren, fun m hm => ?_, fun _ => rfl, rfl, rfl, rfl, rfl⟩
        obtain rfl := Option.some.inj hm
        exact Or.inl rfl
    · have hconn : t.conn (.prod i) = s.conn (.prod i) := by
        rw [ht]
        exact Function.update_of_ne (by simpa using Ne.symm hi) ..
      rw [if_neg hi]
      exact ⟨hheld, hvacant, by rw [ht], hconn ▸ hs.session, hconn ▸ hs.phase⟩
  · rw [Heard.record, if_neg haddr]
    have hkept : t.prods = s.prods ∧ t.conn (.prod i) = s.conn (.prod i) := by
      rw [← Option.some.inj hstep, State.accept, if_neg haddr]
      split_ifs
      · refine ⟨rfl, ?_⟩
        change Function.update s.conn (.clone s.clones) (accepted s.server .getCounters) (.prod i) =
          s.conn (.prod i)
        exact Function.update_of_ne (by simp) ..
      · exact ⟨rfl, rfl⟩
    exact hs.of_conn hstep hkept.1 hkept.2

theorem peer (hs : Forwards i s h) {k : Conn} {e : End} {ev : Sock.Peer}
    (ha : (Act.peer k e ev).Calm i) (hstep : (aggregator cfg).step s (.peer k e ev) = some t) :
    Forwards i t (h.record cfg i (.peer k e ev)) := by
  have hheld := hs.held.step hstep
  have hvacant := hs.vacant.step hstep
  obtain ⟨y, hy, rfl⟩ := step_peer hstep
  by_cases hk : k = .prod i
  · subst hk
    have hreset : ev ≠ .reset := by
      rintro rfl
      exact ha e rfl
    rw [Heard.record, if_pos rfl]
    obtain ⟨l, hl⟩ := hs.session
    have hsent : (Function.update (s.conn (.prod i)).sock e y .client).sent =
        ((s.conn (.prod i)).sock .client).sent := by
      by_cases he : End.client = e
      · subst he
        rw [Function.update_self, Sock.sent, Sock.sent, (Sock.peer_eq hy).1]
      · rw [Function.update_of_ne he]
    refine ⟨hheld, hvacant, hs.prods, ⟨l, ?_⟩, ?_⟩
    · rw [State.setWorld_conn_self]
      refine hl.setSock hsent fun hclosed => ?_
      rw [World.setSock_sock]
      split_ifs with he
      · subst he
        exact hclosed.peer hy
      · exact hclosed
    · rw [State.setWorld_conn_self]
      exact hs.phase.imp (fun hw => hw.peer hreset hy) fun hr => hr.peer hreset hy
  · rw [Heard.record, if_neg hk]
    exact hs.of_conn hstep rfl (State.setWorld_conn_of_ne (Ne.symm hk))

theorem connect (hs : Forwards i s h) {j : ℕ} {ok : Bool}
    (hstep : (aggregator cfg).step s (.connect j ok) = some t) :
    Forwards i t (h.record cfg i (.connect j ok)) := by
  have hheld := hs.held.step hstep
  have hvacant := hs.vacant.step hstep
  obtain ⟨p, hp, hcode, rfl⟩ := step_connect hstep
  by_cases hj : j = i
  · subst hj
    obtain ⟨l, hl⟩ := hs.session
    have hmain := hl.main p hp
    have hforks : (∀ c, p.code ≠ .fork2 c) ∧ ¬ p.code.Forked := by simp [hcode, Code.Forked]
    have hwait : Waiting (s.conn (.prod j)) h.said := by
      refine hs.phase.resolve_right fun hr => ?_
      obtain ⟨m, hm, hcreate, -⟩ := hr.main
      obtain rfl := Option.some.inj (hp.symm.trans hm)
      exact hcreate hcode
    cases ok with
    | false =>
      have hheard : h.record cfg j (.connect j false) = h := if_neg (by simp)
      change Forwards j (s.setProcess (.prod j) .main (p.goto (.exited none))) _
      rw [hheard]
      refine ⟨hheld, hvacant, hs.prods, ⟨l, ?_⟩, Or.inl ?_⟩ <;> rw [State.setProcess_conn_self]
      · exact hl.setMain hp hforks.1 hforks.2 (.exited p none)
      · refine { hwait with alone := fun pid hpid => ?_, main := fun m hm => ?_ }
        · exact (Connection.setProc_proc_of_ne _ hpid _).trans (hwait.alone pid hpid)
        · rw [Connection.setProc_proc_self, Option.some.injEq] at hm
          subst hm
          exact Or.inr rfl
    | true =>
      have hsocks : ∀ e, Function.update p.fds.socks .remote true e = true := by
        intro e
        cases e with
        | client =>
          rw [Function.update_of_ne (by simp)]
          exact hmain.socks (by simp [hcode]) .client (Set.mem_univ _) (Or.inl rfl)
        | remote => exact Function.update_self ..
      have hheard : h.record cfg j (.connect j true) =
          { h with said := Function.update h.said .remote [] } := if_pos ⟨rfl, rfl⟩
      change Forwards j (s.connected j p) _
      rw [hheard]
      refine ⟨hheld, hvacant, hs.prods, ⟨l, ?_⟩, Or.inr ?_⟩ <;>
        rw [State.connected, State.setProcess_conn_self, State.setWorld_conn_self]
      · have hsock : Function.update (s.conn (.prod j)).sock .remote {} .client =
            (s.conn (.prod j)).sock .client := Function.update_of_ne (by simp) ..
        refine ProdSession.setMain (hl.setSock ?_ ?_) hp hforks.1 hforks.2
          ⟨by simp, fun _ e _ _ => hsocks e, fun _ => hmain.pipes (by simp [hcode])⟩
        · exact congrArg Sock.sent hsock
        · exact fun hclosed => (congrArg Sock.Closed hsock).mpr hclosed
      · exact hwait.connect rfl hsocks
  · have hheard : h.record cfg i (.connect j ok) = h := if_neg fun hc => hj hc.1
    have hne : Conn.prod i ≠ .prod j := by simpa using Ne.symm hj
    rw [hheard]
    refine hs.of_conn hstep (by cases ok <;> rfl) ?_
    cases ok with
    | false => exact State.setProcess_conn_of_ne hne
    | true => exact (State.setProcess_conn_of_ne hne).trans (State.setWorld_conn_of_ne hne)

theorem count (hs : Forwards i s h) {k : Conn}
    (hstep : (aggregator cfg).step s (.count k) = some t) : Forwards i t h := by
  have hheld := hs.held.step hstep
  have hvacant := hs.vacant.step hstep
  obtain ⟨p, m, code, hp, hx, rfl⟩ := step_count hstep
  by_cases hk : k = .prod i
  · subst hk
    obtain ⟨hexited, hcreate, hfork, hcall⟩ := handleCounters_code hx
    have hforked : ¬ p.code.Forked := fun hc => hc.elim fun c => hexited _
    have hcode : (∃ c x, code = .increment c x) ∨ ∃ c, code = .fork1 c := by
      simp only [handleCounters, handleProdClient] at hx
      split at hx
      · cases hx
        exact Or.inl ⟨_, _, rfl⟩
      · next c x hc =>
        obtain ⟨⟨m', r⟩, -, hy⟩ := Option.map_eq_some_iff.mp hx
        cases hy
        cases r with
        | none => exact Or.inr ⟨c, rfl⟩
        | some x' => exact Or.inl ⟨c, x', rfl⟩
      · cases hx
    obtain ⟨l, hl⟩ := hs.session
    refine ⟨hheld, hvacant, hs.prods, ⟨l, ?_⟩, ?_⟩ <;> rw [State.setProcess_conn_self]
    · exact hl.setMain hp hfork hforked ((hl.main p hp).goto hexited hcreate hcall)
    · refine Or.inr (Relaying.count ?_ hp hfork hforked hl.lineage hcode)
      refine hs.phase.resolve_left fun hw => ?_
      exact (hw.main p hp).elim hcreate (hexited none)
  · exact hs.of_conn hstep rfl (State.setProcess_conn_of_ne (Ne.symm hk))

theorem fork (hs : Forwards i s h) {k : Conn} {pid : Pid}
    (hstep : (aggregator cfg).step s (.fork k pid) = some t) : Forwards i t h := by
  have hheld := hs.held.step hstep
  have hvacant := hs.vacant.step hstep
  obtain ⟨p, code, child, start, hp, hfork, rfl⟩ := step_fork hstep
  by_cases hk : k = .prod i
  · subst hk
    obtain ⟨l, hl⟩ := hs.session
    refine ⟨hheld, hvacant, hs.prods, ⟨l, ?_⟩, ?_⟩ <;>
      rw [State.setProcess_conn_self, State.setProcess_conn_self]
    · exact hl.fork hp hfork
    · refine Or.inr (Relaying.fork ?_ hl hp hfork)
      refine hs.phase.resolve_left fun hw => ?_
      -- a handler that has not connected does not fork, and has no children
      by_cases hpid : pid = .main
      · subst hpid
        rcases hw.main p hp with hc | hc <;> rw [hc] at hfork <;> cases hfork
      · rw [State.process, hw.alone pid hpid] at hp
        cases hp
  · exact hs.of_conn hstep rfl ((State.setProcess_conn_of_ne (Ne.symm hk)).trans
      (State.setProcess_conn_of_ne (Ne.symm hk)))

theorem io (hs : Forwards i s h) {k : Conn} {pid : Pid} {c : Choice}
    (hstep : (aggregator cfg).step s (.io k pid c) = some t) : Forwards i t h := by
  have hheld := hs.held.step hstep
  have hvacant := hs.vacant.step hstep
  by_cases hk : k = .prod i
  · subst hk
    obtain ⟨l, hl⟩ := hs.session
    have hprods : t.prods = s.prods := by
      obtain ⟨p, L, -, -, ⟨-, -, rfl⟩ | ⟨-, w, fds, -, rfl⟩⟩ := step_io hstep <;> rfl
    refine ⟨hheld, hvacant, hprods.trans hs.prods, ⟨_, (hl.io hs.held hstep).1⟩, Or.inr ?_⟩
    refine Relaying.io hs.held (hs.phase.resolve_left fun hw => ?_) hl hstep
    -- a handler calls no forwarder itself, and has no children before it has connected
    obtain ⟨p, L, hp, hL, -⟩ := step_io hstep
    by_cases hpid : pid = .main
    · subst hpid
      obtain ⟨c, hc, -⟩ | ⟨c, q, hc, -, -⟩ := Process.loop_cases hL
      · exact ((hl.main p hp).noCall c).1 hc
      · exact ((hl.main p hp).noCall c).2 hc
    · rw [State.process, hw.alone pid hpid] at hp
      cases hp
  · obtain ⟨p, L, -, -, ⟨-, -, rfl⟩ | ⟨-, w, fds, -, rfl⟩⟩ := step_io hstep
    · exact hs.of_conn hstep rfl (State.setProcess_conn_of_ne (Ne.symm hk))
    · exact hs.of_conn hstep rfl ((State.setProcess_conn_of_ne (Ne.symm hk)).trans
        (State.setWorld_conn_of_ne (Ne.symm hk)))

/-- Every step at which no peer resets the connection keeps the invariant. -/
theorem step (hs : Forwards i s h) (ha : a.Calm i) (hstep : (aggregator cfg).step s a = some t) :
    Forwards i t (h.record cfg i a) := by
  cases a with
  | accept addr => exact hs.accept hstep
  | peer k e ev => exact hs.peer ha hstep
  | connect j ok => exact hs.connect hstep
  | count k => exact hs.count hstep
  | fork k pid => exact hs.fork hstep
  | io k pid c => exact hs.io hstep

theorem run {cap : PipeId → ℕ} {as : List Act} (has : ∀ a ∈ as, a.Calm i)
    (hrun : (aggregator cfg).run (Aggregator.listening cap) as = some s) :
    Forwards i s (heard cfg i as) := by
  have hG : (aggregator cfg).Along (fun _ a => a.Calm i) (Aggregator.listening cap) as :=
    Machine.along_of_forall_mem has _
  have hstart : Forwards i (Aggregator.listening cap) (heard cfg i []) := .listening cap i
  refine hG.labels_invariant (J := fun as s => Forwards i s (heard cfg i as))
    (fun past s a t hs ha hstep => ?_) hstart hrun
  rw [heard_concat]
  exact hs.step ha hstep

end Forwards

/-- The client sends a byte and ends its stream, and the first forwarder leaves its loop. The second
one has not been forked. -/
def requestSent : List Act :=
  takeZero ++ [.fork (.prod 0) .main, .peer (.prod 0) .remote (.drain 8),
    .peer (.prod 0) .client (.deliver [1]), .peer (.prod 0) .client .fin,
    .io (.prod 0) .first (.run 1), .io (.prod 0) .first (.run 1), .io (.prod 0) .first (.run 0)]

end Parikshan.Aggregator
