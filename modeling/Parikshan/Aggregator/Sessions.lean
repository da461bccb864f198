import Parikshan.Aggregator.Processes

/-!
# The processes of one connection

The steps of a connection act on its own sockets and processes and on the pipes. This file follows
one connection: which of its processes exist, which descriptors they hold, and what they have in
hand. A production connection may lose its first forwarder, whose child then has no socket; a clone
connection whose peer keeps its side open never leaves its two loops.

## Main definitions

* `Connection.Unforked`: a connection that has no process but its handler.
* `ProdSession`: a production connection, with the ledger of its second forwarder.
* `CloneSession`: a clone connection.

## Main results

* `ProdSession.io`, `CloneSession.io`: both are kept by every step of a loop.
-/

namespace Parikshan.Aggregator

open Posix

/-! ### Before the first fork -/

/-- A connection that has no process but its handler, which holds the sockets in `S`. -/
structure Connection.Unforked (S : Set End) (x : Connection) : Prop where
  alone : ∀ pid, pid ≠ .main → x.proc pid = none
  main : ∀ p, x.proc .main = some p → p.Handler S

namespace Connection.Unforked

variable {S : Set End} {x : Connection} {pid : Pid} {p q : Process}

theorem not_some (h : x.Unforked S) (hpid : pid ≠ .main) : x.proc pid ≠ some p := by
  rw [h.alone pid hpid]
  exact fun hp => by cases hp

/-- The handler goes on before its first `fork`. -/
theorem goes (hl : Lineage x.proc) (hp : x.proc .main = some p) (hfork : ∀ c, p.code ≠ .fork2 c)
    (hforked : ¬ p.code.Forked) (hq : q.Handler S) : (x.setProc .main q).Unforked S where
  alone pid hpid := by
    have halone := hl.alone fun m hm => by
      obtain rfl := Option.some.inj (hp.symm.trans hm)
      exact ⟨hfork, hforked⟩
    rw [Connection.setProc_proc_of_ne x hpid, halone pid hpid]
  main m hm := by
    rw [Connection.setProc_proc_self, Option.some.injEq] at hm
    exact hm ▸ hq

end Connection.Unforked

/-! ### The processes of a production connection -/

/-- The first forwarder of a production connection: behind its loop it has no socket. -/
structure Process.Leaving (p : Process) : Prop where
  code : ∀ c, p.code ≠ .call2 c
  closing : p.fds.Closing
  closed : (∀ c, p.code ≠ .call1 c) → ∀ e, p.fds.socks e = false

/-- The second forwarder, with the socket of the client and the ledger of its responses. -/
structure Process.Feeding (x : Sock) (l : Ledger) (p : Process) : Prop where
  code : ∀ c, p.code ≠ .call1 c
  socks : p.fds.HoldsSocks Set.univ
  pipes : p.fds.HoldsPipes
  accounted : Accounted p.fds l
  delivered : ¬ x.Closed → Delivered x p.fds l ∧ p.fds.pc ≠ .killed

/-- The child that the first forwarder forks when it falls through. -/
structure Process.Blind (p : Process) : Prop where
  code : ∀ c, p.code ≠ .call1 c
  socks : ∀ e, p.fds.socks e = false
  inHand : p.fds.pc.inHand = []

namespace Process

variable {p : Process} {w w' : World End PipeId} {hasRd hasWr : PipeId → Bool} {c : Choice}
  {fds : Proc End PipeId} {q : PipeId} {x : Sock} {l : Ledger}

theorem Leaving.step {L : Loop End PipeId} (h : p.Leaving)
    (hL : ∀ e, p.fds.socks e = true → Op.close e ∈ L.cleanup) {d : ℕ} (hcode : p.code = .call1 d)
    (hstep : L.step hasRd hasWr w p.fds c = some (w', fds)) : Leaving { p with fds := fds } where
  code := h.code
  closing := Loop.step_closing hL h.closing hstep
  closed hne := absurd hcode (hne d)

/-- The first forwarder falls through without a socket. -/
theorem Leaving.afterCall (h : p.Leaving) {d : ℕ} (hcode : p.code = .call1 d)
    (hpc : p.fds.pc = .cleanup []) : p.afterCall.Leaving := by
  have hcalled : p.afterCall = { code := .fork2 d, fds := p.fds } := by
    simp [Process.afterCall, hcode, Process.goto]
  have hclosed : ∀ e, p.fds.socks e = false := by
    intro e
    by_contra he
    simpa using h.closing [] hpc e (by simpa using he)
  rw [hcalled]
  exact ⟨by simp, h.closing, fun _ => hclosed⟩

theorem Leaving.exited (p : Process) (d : Option ℕ) : (p.goto (.exited d)).Leaving :=
  ⟨by simp, fun _ hops => (by cases hops), fun _ _ => rfl⟩

theorem Leaving.child (h : p.Leaving) {d : ℕ} (hcode : p.code = .fork2 d) :
    (p.child (.call2 d)).Blind :=
  ⟨by simp [Process.child], h.closed (by simp [hcode]), rfl⟩

theorem Blind.step (h : p.Blind)
    (hstep : (forwardDataToDestAndPipe q).step hasRd hasWr w p.fds c = some (w', fds)) :
    Blind { p with fds := fds } ∧ w'.sock = w.sock ∧ w'.pipe = w.pipe ∧
      ∀ l, (forwardDataToDestAndPipe q).record hasRd w p.fds c l = l := by
  obtain ⟨hsock, hpipe, hhand, hrecord⟩ := Loop.step_blind rfl h.socks h.inHand hstep
  exact ⟨⟨h.code, fun e => Loop.step_socks (h.socks e) hstep, hhand⟩, hsock, hpipe, hrecord⟩

theorem Blind.afterCall (h : p.Blind) : p.afterCall.Blind := by
  unfold Process.afterCall
  split
  · next d hcode => exact absurd hcode (h.code d)
  · exact ⟨by simp, fun _ => rfl, rfl⟩
  · exact h

/-- The second forwarder loses no chunk, and sends what it has read while it can. -/
theorem Feeding.step (h : p.Feeding (w.sock .client) l) (hrd : ∀ q, hasRd q = true)
    (hstep : (forwardDataToDestAndPipe q).step hasRd hasWr w p.fds c = some (w', fds)) :
    Feeding (w'.sock .client) ((forwardDataToDestAndPipe q).record hasRd w p.fds c l)
      { p with fds := fds } where
  code := h.code
  socks := Loop.step_holdsSocks h.socks hstep
  pipes := Loop.step_holdsPipes h.pipes hstep
  accounted := Loop.step_accounted rfl rfl rfl h.accounted hstep
  delivered hopen := by
    have hopen₀ : ¬ (w.sock .client).Closed := fun hclosed => hopen (Loop.step_closed hclosed hstep)
    obtain ⟨hdelivered, hkilled⟩ := h.delivered hopen₀
    refine ⟨Loop.step_delivered rfl rfl (by simp) (Set.mem_univ _) h.socks (fun _ => hopen₀)
      hdelivered hstep, fun hk => ?_⟩
    by_cases hin : p.fds.pc.inLoop = true
    · have hwithin : (forwardDataToDestAndPipe q).Within Set.univ :=
        ⟨fun _ _ => trivial, fun _ _ => trivial, fun _ _ => trivial⟩
      rcases Loop.step_leaves hwithin hin h.socks h.pipes hstep with hin' |
        ⟨-, ⟨d, hd, hclosed⟩ | ⟨q', -, hq'⟩⟩ | ⟨hpc, -⟩
      · simp only at hk
        rw [hk] at hin'
        cases hin'
      · cases hd
        exact hopen₀ hclosed
      · simp [hrd] at hq'
      · simp only at hk
        rw [hk] at hpc
        cases hpc
    · exact (Loop.step_ended (by simpa using hin) hstep).2 hk

theorem Feeding.afterCall (h : p.Feeding x l) (hpc : p.fds.pc = .cleanup []) :
    p.afterCall.Feeding x l := by
  unfold Process.afterCall
  split
  · next d hcode => exact absurd hcode (h.code d)
  · next d hcode =>
    refine ⟨by simp, fun hin => (by cases hin), fun hne => absurd rfl hne, .of_eq ?_,
      fun hopen => ⟨.of_eq (fun _ _ hs => by cases hs) ?_, fun hk => by cases hk⟩⟩
    · have hchunks := h.accounted.chunks (by simp [hpc])
      rwa [hpc] at hchunks
    · have hsent := (h.delivered hopen).1.sent
      rwa [hpc, Pc.unsent, List.append_nil] at hsent
  · exact h

/-- What happens to the socket of the client otherwise. -/
theorem Feeding.of_sent (h : p.Feeding x l) {x' : Sock} (hsent : x'.sent = x.sent)
    (hclosed : x.Closed → x'.Closed) : p.Feeding x' l :=
  { h with
    delivered := fun hopen => by
      obtain ⟨hd, hk⟩ := h.delivered fun hx => hopen (hclosed hx)
      exact ⟨⟨hd.cut, hsent ▸ hd.sent⟩, hk⟩ }

theorem Handler.feeding (h : p.Handler Set.univ) {d : ℕ} (hcode : p.code = .fork2 d)
    (hx : x.sent = []) : (p.child (.call2 d)).Feeding x {} := by
  obtain ⟨hsocks, hpipes⟩ := h.child (by simp [hcode]) (by simp [hcode]) (.call2 d)
  refine ⟨by simp [Process.child], hsocks, hpipes, .of_eq rfl, fun _ => ⟨.of_eq ?_ ?_, ?_⟩⟩
  · simp [Process.child]
  · rw [hx]
    rfl
  · simp [Process.child]

theorem Leaving.start (p : Process) (d : ℕ) : (p.child (.call1 d)).Leaving :=
  ⟨by simp [Process.child], fun _ hops => (by cases hops), fun hne => absurd rfl (hne d)⟩

end Process

/-- A production connection with the ledger of its second forwarder. -/
structure ProdSession (x : Connection) (l : Ledger) : Prop where
  lineage : Lineage x.proc
  main : ∀ p, x.proc .main = some p → p.Handler Set.univ
  first : ∀ p, x.proc .first = some p → p.Leaving
  second : ∀ p, x.proc .second = some p → p.Feeding (x.sock .client) l
  firstSecond : ∀ p, x.proc .firstSecond = some p → p.Blind
  fresh : x.proc .second = none → l = {} ∧ (x.sock .client).sent = []

namespace ProdSession

variable {x : Connection} {l l' : Ledger} {p q : Process} {f : End → Sock}

theorem of_main (h : x.Unforked Set.univ) (hx : (x.sock .client).sent = []) :
    ProdSession x {} where
  lineage := .of_alone h.alone
  main := h.main
  first p hp := absurd hp (h.not_some (by simp))
  second p hp := absurd hp (h.not_some (by simp))
  firstSecond p hp := absurd hp (h.not_some (by simp))
  fresh _ := ⟨rfl, hx⟩

/-- What others do to the sockets. -/
theorem setSock (h : ProdSession x l) (hsent : (f .client).sent = (x.sock .client).sent)
    (hclosed : (x.sock .client).Closed → (f .client).Closed) :
    ProdSession { x with sock := f } l :=
  { h with
    second := fun p hp => (h.second p hp).of_sent hsent hclosed
    fresh := fun hnone => ⟨(h.fresh hnone).1, hsent ▸ (h.fresh hnone).2⟩ }

/-- The handler goes on before its first `fork`. -/
theorem setMain (h : ProdSession x l) (hp : x.proc .main = some p)
    (hfork : ∀ c, p.code ≠ .fork2 c) (hforked : ¬ p.code.Forked) (hq : q.Handler Set.univ) :
    ProdSession (x.setProc .main q) l := by
  have hgoes := Connection.Unforked.goes h.lineage hp hfork hforked hq
  obtain ⟨rfl, hsent⟩ := h.fresh (hgoes.alone .second (by simp))
  exact .of_main hgoes hsent

theorem setFirst (h : ProdSession x l) (hl : Lineage (Function.update x.proc .first (some q)))
    (hq : q.Leaving) : ProdSession (x.setProc .first q) l where
  lineage := hl
  main p hp := h.main p (by simpa [Connection.setProc] using hp)
  first p hp := by
    rw [Connection.setProc_proc_self, Option.some.injEq] at hp
    exact hp ▸ hq
  second p hp := h.second p (by simpa [Connection.setProc] using hp)
  firstSecond p hp := h.firstSecond p (by simpa [Connection.setProc] using hp)
  fresh hnone := h.fresh (by simpa [Connection.setProc] using hnone)

theorem setSecond (h : ProdSession x l) (hl : Lineage (Function.update x.proc .second (some q)))
    (hq : q.Feeding (f .client) l') :
    ProdSession (Connection.setProc { x with sock := f } .second q) l' where
  lineage := hl
  main p hp := h.main p (by simpa [Connection.setProc] using hp)
  first p hp := h.first p (by simpa [Connection.setProc] using hp)
  second p hp := by
    rw [Connection.setProc_proc_self, Option.some.injEq] at hp
    exact hp ▸ hq
  firstSecond p hp := h.firstSecond p (by simpa [Connection.setProc] using hp)
  fresh hnone := by simp at hnone

theorem setFirstSecond (h : ProdSession x l)
    (hl : Lineage (Function.update x.proc .firstSecond (some q))) (hq : q.Blind) :
    ProdSession (x.setProc .firstSecond q) l where
  lineage := hl
  main p hp := h.main p (by simpa [Connection.setProc] using hp)
  first p hp := h.first p (by simpa [Connection.setProc] using hp)
  second p hp := h.second p (by simpa [Connection.setProc] using hp)
  firstSecond p hp := by
    rw [Connection.setProc_proc_self, Option.some.injEq] at hp
    exact hp ▸ hq
  fresh hnone := h.fresh (by simpa [Connection.setProc] using hnone)

/-- The forks of a production connection. -/
theorem fork (h : ProdSession x l) {pid child : Pid} {code start : Code}
    (hp : x.proc pid = some p) (hfork : p.code.fork pid = some (code, child, start)) :
    ProdSession ((x.setProc pid (p.goto code)).setProc child (p.child start)) l := by
  obtain ⟨hnone, hlineage⟩ := h.lineage.fork hp hfork
  obtain ⟨c, ⟨rfl, hcode, rfl, rfl, rfl⟩ | ⟨hcode, rfl, rfl, ⟨rfl, rfl⟩ | ⟨rfl, rfl⟩⟩⟩ :=
    Code.fork_cases hfork
  · have hmain : (p.goto (.fork2 c)).Handler Set.univ :=
      (h.main p hp).goto (by simp [hcode]) (by simp [hcode]) (by simp)
    have hx := h.setMain hp (by simp [hcode]) (by simp [hcode, Code.Forked]) hmain
    exact hx.setFirst hlineage (.start p c)
  · obtain ⟨rfl, hsent⟩ := h.fresh hnone
    have hfeeding := (h.main p hp).feeding hcode hsent
    refine ⟨hlineage, fun m hm => ?_, fun m hm => ?_, fun m hm => ?_, fun m hm => ?_, ?_⟩
    · rw [Connection.setProc_proc_of_ne _ (by simp), Connection.setProc_proc_self,
        Option.some.injEq] at hm
      exact hm ▸ Process.Handler.exited p _
    · exact h.first m (by simpa [Connection.setProc] using hm)
    · rw [Connection.setProc_proc_self, Option.some.injEq] at hm
      exact hm ▸ hfeeding
    · exact h.firstSecond m (by simpa [Connection.setProc] using hm)
    · simp
  · have hleaving := (h.first p hp).child hcode
    have hadv : Lineage (Function.update x.proc .first (some (p.goto (.exited (some c))))) :=
      h.lineage.advance hp (by rw [Process.goto_code, hcode]; rfl)
        (fun _ _ => Or.inr ⟨c, Process.goto_code p _⟩) fun _ => ⟨c, Process.goto_code p _⟩
    exact (h.setFirst hadv (.exited p _)).setFirstSecond hlineage hleaving

end ProdSession

/-- The ledger of the second forwarder after a step of a process of a production connection. -/
def State.record (s : State) (i : ℕ) (pid : Pid) (c : Choice) (l : Ledger) : Ledger :=
  (s.process (.prod i) pid).elim l fun p =>
    match p.code, p.loop (.prod i) with
    | .call2 _, some L => L.record s.hasRd (s.world (.prod i)) p.fds c l
    | _, _ => l

section Io

variable {cfg : Config} {s t : State} {i : ℕ} {pid : Pid} {c : Choice} {l : Ledger} {p : Process}

theorem State.record_call1 {d : ℕ} (hp : s.process (.prod i) pid = some p)
    (hcode : p.code = .call1 d) : s.record i pid c l = l := by
  simp [record, hp, hcode]

theorem State.record_call2 {d : ℕ} {q : PipeId} (hp : s.process (.prod i) pid = some p)
    (hcode : p.code = .call2 d) (hq : pipesArr d = some q) :
    s.record i pid c l =
      (forwardDataToDestAndPipe q).record s.hasRd (s.world (.prod i)) p.fds c l := by
  simp [record, hp, hcode, Process.loop, hq, secondCall]

/-- A step of a production process keeps the session. The second forwarder may add a chunk to its
pipe and its ledger, and the other processes leave both alone. -/
theorem ProdSession.io (hs : Held s) (h : ProdSession (s.conn (.prod i)) l)
    (hstep : (aggregator cfg).step s (.io (.prod i) pid c) = some t) :
    ProdSession (t.conn (.prod i)) (s.record i pid c l) ∧
      (t.pipe = s.pipe ∧ s.record i pid c l = l ∨
        ∃ q bs, s.index (.prod i) = some q.val ∧ (s.record i pid c l).kept.flatten =
          l.kept.flatten ++ bs ∧ (t.pipe q).buf = (s.pipe q).buf ++ bs ∧
            ∀ r ≠ q, t.pipe r = s.pipe r) := by
  obtain ⟨p, L, hp, hL, hcase⟩ := step_io hstep
  obtain ⟨hgo, hreturn⟩ := h.lineage.io hp hL
  obtain ⟨d, hcode, rfl⟩ | ⟨d, q, hcode, hq, rfl⟩ := Process.loop_cases hL
  · rw [State.record_call1 hp hcode]
    cases pid with
    | main => exact absurd hcode ((h.main p hp).noCall d).1
    | second => exact absurd hcode ((h.second p hp).code d)
    | firstSecond => exact absurd hcode ((h.firstSecond p hp).code d)
    | first =>
      have hleaving := h.first p hp
      obtain ⟨-, hpc, rfl⟩ | ⟨-, w, fds, hloop, rfl⟩ := hcase
      · rw [State.setProcess_conn_self]
        exact ⟨h.setFirst hreturn (hleaving.afterCall hcode hpc), Or.inl ⟨rfl, rfl⟩⟩
      · rw [State.setProcess_conn_self, State.setWorld_conn_self]
        have hx : ProdSession { s.conn (.prod i) with sock := w.sock } l :=
          h.setSock (Loop.step_sent (by simp [firstCall, forwardData]) hloop)
            fun hclosed => Loop.step_closed hclosed hloop
        have hcleanup (e : End) : Op.close e ∈ (firstCall (.prod i)).cleanup := by
          cases e <;> simp [firstCall, forwardData]
        refine ⟨hx.setFirst (hgo fds) (hleaving.step (fun e _ => hcleanup e) hcode hloop),
          Or.inl ⟨funext fun r => ?_, rfl⟩⟩
        exact Loop.step_pipe (by simp [firstCall, forwardData]) (by simp [firstCall, forwardData])
          hloop
  · rw [State.record_call2 hp hcode hq]
    have hindex : s.index (.prod i) = some q.val :=
      h.lineage.index_eq hp (by rw [hcode, val_of_pipesArr hq]; rfl)
    have hreturned (hpc : p.fds.pc = .cleanup []) : (forwardDataToDestAndPipe q).record s.hasRd
        (s.world (.prod i)) p.fds c l = l := Loop.record_eq (by simp [hpc]) (by simp [hpc])
    cases pid with
    | main => exact absurd hcode ((h.main p hp).noCall d).2
    | first => exact absurd hcode ((h.first p hp).code d)
    | second =>
      have hfeeding := h.second p hp
      obtain ⟨-, hpc, rfl⟩ | ⟨-, w, fds, hloop, rfl⟩ := hcase
      · rw [State.setProcess_conn_self, hreturned hpc]
        exact ⟨h.setSecond hreturn (hfeeding.afterCall hpc), Or.inl ⟨rfl, rfl⟩⟩
      · rw [State.setProcess_conn_self, State.setWorld_conn_self]
        refine ⟨h.setSecond (hgo fds) (Process.Feeding.step hfeeding hs.hasRd hloop), Or.inr ?_⟩
        obtain ⟨bs, hkept, hbuf⟩ := Loop.step_tee rfl rfl hloop
        refine ⟨q, bs, hindex, hkept, hbuf, fun r hr => ?_⟩
        exact Loop.step_pipe (by simp [secondCall, forwardDataToDestAndPipe])
          (by simpa [secondCall, forwardDataToDestAndPipe] using hr.symm) hloop
    | firstSecond =>
      have hblind := h.firstSecond p hp
      obtain ⟨-, hpc, rfl⟩ | ⟨-, w, fds, hloop, rfl⟩ := hcase
      · rw [State.setProcess_conn_self, hreturned hpc]
        exact ⟨h.setFirstSecond hreturn hblind.afterCall, Or.inl ⟨rfl, rfl⟩⟩
      · obtain ⟨hblind', hsock, hpipe, hrecord⟩ := hblind.step hloop
        rw [State.setProcess_conn_self, State.setWorld_conn_self, hrecord, hsock]
        exact ⟨h.setFirstSecond (hgo fds) hblind', Or.inl ⟨hpipe, rfl⟩⟩

end Io

/-! ### The processes of a clone connection -/

/-- A process of a clone connection that is in its loop. -/
structure Process.Busy (p : Process) : Prop where
  inLoop : p.fds.pc.inLoop = true
  socks : p.fds.HoldsSocks {.client}
  pipes : p.fds.HoldsPipes

/-- A socket on which the peer sends and receives and that nobody has shut down. -/
structure Intact (x : Sock) : Prop extends x.Live where
  shut : x.shut = false

theorem Intact.not_closed {x : Sock} (h : Intact x) : ¬ x.Closed := by
  simp [Sock.Closed, h.shut, h.rst]

theorem Process.Handler.busy {p : Process} (h : p.Handler {.client}) (hp : ∀ c, p.code ≠ .exited c)
    (hcreate : p.code ≠ .createConnection) (code : Code) : (p.child code).Busy :=
  ⟨rfl, (h.child hp hcreate code).1, (h.child hp hcreate code).2⟩

/-- As long as the clone keeps its side open neither of its processes leaves its loop. -/
theorem Process.Busy.step {p : Process} {L : Loop End PipeId} {w w' : World End PipeId}
    {hasRd hasWr : PipeId → Bool} {c : Choice} {fds : Proc End PipeId} (h : p.Busy)
    (hL : L.Within {.client}) (htee : L.tee = none) (hx : Intact (w.sock .client))
    (hwr : ∀ q, hasWr q = true) (hstep : L.step hasRd hasWr w p.fds c = some (w', fds)) :
    Process.Busy { p with fds := fds } ∧ Intact (w'.sock .client) := by
  have hclient {e : End} (he : e ∈ ({.client} : Set End)) : e = .client := he
  refine ⟨⟨?_, Loop.step_holdsSocks h.socks hstep, Loop.step_holdsPipes h.pipes hstep⟩,
    { toLive := Loop.step_live hx.toLive hstep, shut := ?_ }⟩
  · rcases Loop.step_leaves hL h.inLoop h.socks h.pipes hstep with hin |
      ⟨-, ⟨d, hd, hclosed⟩ | ⟨q, hq, -⟩⟩ | ⟨-, ⟨e, he, hshut⟩ | ⟨q, -, hq⟩⟩
    · exact hin
    · obtain rfl := hclient (hL.dest d hd)
      exact absurd hclosed hx.not_closed
    · simp [htee] at hq
    · obtain rfl := hclient (hL.source e he)
      simp [hx.shut] at hshut
      exact absurd hx.toLive hshut
    · simp [hwr] at hq
  · by_contra hne
    rcases Loop.step_shut hstep (by simpa using hne) with hshut | ⟨ops, hpc⟩
    · simp [hx.shut] at hshut
    · have hin := h.inLoop
      rw [hpc] at hin
      cases hin

/-- A clone connection whose peer keeps its sending side open. -/
structure CloneSession (x : Connection) : Prop where
  intact : Intact (x.sock .client)
  lineage : Lineage x.proc
  main : ∀ p, x.proc .main = some p → p.Handler {.client}
  first : ∀ p, x.proc .first = some p → p.Busy ∧ ∃ c, p.code = .call1 c
  second : ∀ p, x.proc .second = some p → p.Busy ∧ p.fds.pc.Cut ∧ ∃ c, p.code = .call2 c
  firstSecond : x.proc .firstSecond = none
  fresh : x.proc .second = none → (x.sock .client).sent = []

/-- What the reader of a clone connection has taken from its pipe and still has to send. -/
def Connection.unsent (x : Connection) : List Byte :=
  (x.proc .second).elim [] fun p => p.fds.pc.unsent

namespace CloneSession

variable {x : Connection} {p q : Process} {f : End → Sock}

theorem of_main (h : x.Unforked {.client}) (hx : Intact (x.sock .client))
    (hsent : (x.sock .client).sent = []) : CloneSession x where
  intact := hx
  lineage := .of_alone h.alone
  main := h.main
  first p hp := absurd hp (h.not_some (by simp))
  second p hp := absurd hp (h.not_some (by simp))
  firstSecond := h.alone .firstSecond (by simp)
  fresh _ := hsent

/-- What the peer does to the sockets. -/
theorem setSock (h : CloneSession x) (hf : Intact (f .client))
    (hsent : (f .client).sent = (x.sock .client).sent) : CloneSession { x with sock := f } :=
  { h with
    intact := hf
    fresh := fun hnone => hsent ▸ h.fresh hnone }

/-- The handler goes on before its first `fork`. -/
theorem setMain (h : CloneSession x) (hp : x.proc .main = some p)
    (hfork : ∀ c, p.code ≠ .fork2 c) (hforked : ¬ p.code.Forked) (hq : q.Handler {.client}) :
    CloneSession (x.setProc .main q) := by
  have hgoes := Connection.Unforked.goes h.lineage hp hfork hforked hq
  exact .of_main hgoes h.intact (h.fresh (hgoes.alone .second (by simp)))

theorem setFirst (h : CloneSession x) (hf : Intact (f .client))
    (hsent : (f .client).sent = (x.sock .client).sent)
    (hl : Lineage (Function.update x.proc .first (some q)))
    (hq : q.Busy) {c : ℕ} (hcode : q.code = .call1 c) :
    CloneSession (Connection.setProc { x with sock := f } .first q) where
  intact := hf
  lineage := hl
  main p hp := h.main p (by simpa [Connection.setProc] using hp)
  first p hp := by
    rw [Connection.setProc_proc_self, Option.some.injEq] at hp
    exact hp ▸ ⟨hq, c, hcode⟩
  second p hp := h.second p (by simpa [Connection.setProc] using hp)
  firstSecond := by simpa [Connection.setProc] using h.firstSecond
  fresh hnone := hsent ▸ h.fresh (by simpa [Connection.setProc] using hnone)

theorem setSecond (h : CloneSession x) (hf : Intact (f .client))
    (hl : Lineage (Function.update x.proc .second (some q)))
    (hq : q.Busy) (hcut : q.fds.pc.Cut) {c : ℕ} (hcode : q.code = .call2 c) :
    CloneSession (Connection.setProc { x with sock := f } .second q) where
  intact := hf
  lineage := hl
  main p hp := h.main p (by simpa [Connection.setProc] using hp)
  first p hp := h.first p (by simpa [Connection.setProc] using hp)
  second p hp := by
    rw [Connection.setProc_proc_self, Option.some.injEq] at hp
    exact hp ▸ ⟨hq, hcut, c, hcode⟩
  firstSecond := by simpa [Connection.setProc] using h.firstSecond
  fresh hnone := by simp at hnone

/-- The forks of a clone connection. -/
theorem fork (h : CloneSession x) {pid child : Pid} {code start : Code}
    (hp : x.proc pid = some p) (hfork : p.code.fork pid = some (code, child, start)) :
    CloneSession ((x.setProc pid (p.goto code)).setProc child (p.child start)) ∧
      Connection.unsent ((x.setProc pid (p.goto code)).setProc child (p.child start)) =
        x.unsent := by
  obtain ⟨hnone, hlineage⟩ := h.lineage.fork hp hfork
  obtain ⟨c, ⟨rfl, hcode, rfl, rfl, rfl⟩ | ⟨hcode, rfl, rfl, ⟨rfl, rfl⟩ | ⟨rfl, rfl⟩⟩⟩ :=
    Code.fork_cases hfork
  · have hmain : (p.goto (.fork2 c)).Handler {.client} :=
      (h.main p hp).goto (by simp [hcode]) (by simp [hcode]) (by simp)
    have hx := h.setMain hp (by simp [hcode]) (by simp [hcode, Code.Forked]) hmain
    have hbusy := (h.main p hp).busy (by simp [hcode]) (by simp [hcode]) (.call1 c)
    refine ⟨hx.setFirst (c := c) hx.intact rfl hlineage hbusy rfl, ?_⟩
    simp [Connection.unsent, Connection.setProc]
  · have hbusy := (h.main p hp).busy (by simp [hcode]) (by simp [hcode]) (.call2 c)
    refine ⟨⟨h.intact, hlineage, fun m hm => ?_, fun m hm => ?_, fun m hm => ?_, ?_, ?_⟩, ?_⟩
    · rw [Connection.setProc_proc_of_ne _ (by simp), Connection.setProc_proc_self,
        Option.some.injEq] at hm
      exact hm ▸ Process.Handler.exited p _
    · exact h.first m (by simpa [Connection.setProc] using hm)
    · rw [Connection.setProc_proc_self, Option.some.injEq] at hm
      exact hm ▸ ⟨hbusy, fun _ _ hs => (by cases hs), c, rfl⟩
    · simpa [Connection.setProc] using h.firstSecond
    · simp
    · rw [Connection.unsent, Connection.unsent, Connection.setProc_proc_self, hnone]
      rfl
  · obtain ⟨-, d, hd⟩ := h.first p hp
    simp [hcode] at hd

end CloneSession

section CloneIo

variable {cfg : Config} {s t : State} {j : ℕ} {pid : Pid} {c : Choice} {p : Process}

/-- A step of a clone process keeps the session. The reader moves bytes from its pipe to the clone,
and the other process touches neither. -/
theorem CloneSession.io (hs : Held s) (h : CloneSession (s.conn (.clone j)))
    (hstep : (aggregator cfg).step s (.io (.clone j) pid c) = some t) :
    CloneSession (t.conn (.clone j)) ∧
      ((t.pipe = s.pipe ∧ ((t.conn (.clone j)).sock .client).sent =
        ((s.conn (.clone j)).sock .client).sent ∧ (t.conn (.clone j)).unsent =
          (s.conn (.clone j)).unsent) ∨
        ∃ q, s.index (.clone j) = some q.val ∧
          ((t.conn (.clone j)).sock .client).sent ++ (t.conn (.clone j)).unsent ++ (t.pipe q).buf =
            ((s.conn (.clone j)).sock .client).sent ++ (s.conn (.clone j)).unsent ++
              (s.pipe q).buf ∧
          ∀ r ≠ q, t.pipe r = s.pipe r) := by
  obtain ⟨p, L, hp, hL, hcase⟩ := step_io hstep
  obtain ⟨hgo, -⟩ := h.lineage.io hp hL
  have hgoing (hbusy : p.Busy) : p.fds.pc ≠ .cleanup [] := by
    intro hpc
    have hin := hbusy.inLoop
    rw [hpc] at hin
    cases hin
  obtain ⟨d, hcode, rfl⟩ | ⟨d, q, hcode, hq, rfl⟩ := Process.loop_cases hL
  · cases pid with
    | main => exact absurd hcode ((h.main p hp).noCall d).1
    | second =>
      obtain ⟨-, -, e, he⟩ := h.second p hp
      simp [hcode] at he
    | firstSecond => exact absurd (hp.symm.trans h.firstSecond) (by simp)
    | first =>
      obtain ⟨hbusy, -⟩ := h.first p hp
      obtain ⟨-, hpc, -⟩ | ⟨-, w, fds, hloop, rfl⟩ := hcase
      · exact absurd hpc (hgoing hbusy)
      · have hwithin : readDataAndDrop.Within {.client} :=
          ⟨by simp [readDataAndDrop], by simp [readDataAndDrop],
            by simp [readDataAndDrop, Op.target]⟩
        obtain ⟨hbusy', hintact⟩ := hbusy.step hwithin rfl h.intact hs.hasWr hloop
        have hsent := Loop.step_sent (j := .client) (by simp [firstCall, readDataAndDrop]) hloop
        rw [State.setProcess_conn_self, State.setWorld_conn_self]
        refine ⟨h.setFirst (c := d) hintact hsent (hgo fds) hbusy' hcode,
          Or.inl ⟨funext fun r => ?_, hsent, ?_⟩⟩
        · exact Loop.step_pipe (by simp [firstCall, readDataAndDrop])
            (by simp [firstCall, readDataAndDrop]) hloop
        · simp [Connection.unsent, Connection.setProc]
  · cases pid with
    | main => exact absurd hcode ((h.main p hp).noCall d).2
    | first =>
      obtain ⟨-, e, he⟩ := h.first p hp
      simp [hcode] at he
    | firstSecond => exact absurd (hp.symm.trans h.firstSecond) (by simp)
    | second =>
      obtain ⟨hbusy, hcut, -⟩ := h.second p hp
      obtain ⟨-, hpc, -⟩ | ⟨-, w, fds, hloop, rfl⟩ := hcase
      · exact absurd hpc (hgoing hbusy)
      · have hwithin : (readPipeDest q).Within {.client} :=
          ⟨by simp [readPipeDest], by simp [readPipeDest], by simp [readPipeDest, Op.target]⟩
        obtain ⟨hbusy', hintact⟩ := hbusy.step hwithin rfl h.intact hs.hasWr hloop
        obtain ⟨hmove, hcut'⟩ := Loop.step_drain (q := q) rfl rfl rfl
          (Set.mem_singleton End.client) hbusy.socks hbusy.pipes (hs.hasWr q)
          (fun _ => h.intact.not_closed) hcut hloop
        rw [State.setProcess_conn_self, State.setWorld_conn_self]
        refine ⟨h.setSecond (c := d) hintact (hgo fds) hbusy' hcut' hcode,
          Or.inr ⟨q, h.lineage.index_eq hp (by rw [hcode, val_of_pipesArr hq]; rfl), ?_, ?_⟩⟩
        · have hunsent : (s.conn (.clone j)).unsent = p.fds.pc.unsent := by
            rw [Connection.unsent]
            exact congrArg (Option.elim · [] fun p => p.fds.pc.unsent) hp
          rw [hunsent, Connection.unsent, Connection.setProc_proc_self]
          exact hmove
        · exact fun r hr => Loop.step_pipe (by simpa [secondCall, readPipeDest] using hr.symm)
            (by simp [secondCall, readPipeDest]) hloop

end CloneIo

end Parikshan.Aggregator
