import Parikshan.Aggregator.Isolation
import Parikshan.Aggregator.Serial
import Parikshan.Aggregator.Sessions

/-!
# What a clone receives

A pipe is fed by the second forwarder of one production connection and emptied by the reader of one
clone connection. In a run whose handlers take turns and whose clones keep their side open, the
`c`-th production connection and the `c`-th clone connection meet in the `c`-th pipe, and the bytes
sent to the clone, in the hands of its reader and in the pipe are the chunks whose write on the
pipe succeeded.

## Main definitions

* `History`: the order of the connections, and the ledgers of the production connections.
* `Linked`: the invariant of all connections and pipes.
* `Replays`: what a pair of connections has in common.

## Main results

* `Linked.step`: the invariant is kept by every step.
* `clones_replay`: the replay is correct.
-/

namespace Parikshan.Aggregator

open Posix

/-- The order of the connections and the ledgers of the production connections. -/
structure History extends Order where
  ledger : ℕ → Ledger := fun _ => {}

/-- The ledgers after a step. -/
def State.ledgers (s : State) : Act → (ℕ → Ledger) → ℕ → Ledger
  | .io (.prod i) pid c, l => Function.update l i (s.record i pid c (l i))
  | _, l => l

/-- The history after a step. -/
def History.update (s : State) (a : Act) (h : History) : History where
  toOrder := h.toOrder.update s a
  ledger := s.ledgers a h.ledger

/-- The peer of a clone connection keeps its side open. -/
def KeepsOpen (a : Act) : Prop :=
  ∀ j, a ≠ .peer (.clone j) .client .fin ∧ a ≠ .peer (.clone j) .client .reset

/-- What has been taken from a pipe for a clone connection. -/
def Connection.taken (x : Connection) : List Byte := (x.sock .client).sent ++ x.unsent

namespace History

/-- What the production side has put into a pipe. -/
def fed (h : History) (q : PipeId) : List Byte :=
  (h.prods[q.val]?).elim [] fun i => (h.ledger i).kept.flatten

/-- What the clone side has taken from a pipe. -/
def taken (h : History) (s : State) (q : PipeId) : List Byte :=
  (h.clones[q.val]?).elim [] fun j => (s.conn (.clone j)).taken

end History

/-- The sessions of all connections. -/
structure Sessions (s : State) (l : ℕ → Ledger) : Prop where
  prod : ∀ i, ProdSession (s.conn (.prod i)) (l i)
  clone : ∀ j, CloneSession (s.conn (.clone j))

/-- The invariant: the handlers take turns, every session is in order, and what has been fed to a
pipe is what has been taken from it and what is in it. -/
structure Linked (s : State) (h : History) : Prop where
  held : Held s
  indexed : Indexed s
  serial : Serial s.shm s.phase h.toOrder
  sessions : Sessions s h.ledger
  pipe : ∀ q, h.taken s q ++ (s.pipe q).buf = h.fed q

/-! ### The sessions along a run -/

namespace Sessions

variable {cfg : Config} {s t : State} {l : ℕ → Ledger} {a : Act}

theorem listening (cap : PipeId → ℕ) : Sessions (listening cap) fun _ => {} where
  prod _ := .of_main ⟨fun _ _ => rfl, fun p hp => by cases hp⟩ rfl
  clone _ := .of_main ⟨fun _ _ => rfl, fun p hp => by cases hp⟩ ⟨⟨rfl, rfl, rfl⟩, rfl⟩ rfl

/-- One connection takes a step. -/
theorem update_prod (hs : Sessions s l) {i : ℕ} {l' : ℕ → Ledger}
    (hconn : ∀ k ≠ .prod i, t.conn k = s.conn k) (hl : ∀ i' ≠ i, l' i' = l i')
    (h : ProdSession (t.conn (.prod i)) (l' i)) : Sessions t l' where
  prod i' := by
    by_cases hi : i' = i
    · exact hi ▸ h
    · rw [hconn _ (by simpa using hi), hl i' hi]
      exact hs.prod i'
  clone j := by
    rw [hconn _ (by simp)]
    exact hs.clone j

theorem update_clone (hs : Sessions s l) {j : ℕ} (hconn : ∀ k ≠ .clone j, t.conn k = s.conn k)
    (h : CloneSession (t.conn (.clone j))) : Sessions t l where
  prod i := by
    rw [hconn _ (by simp)]
    exact hs.prod i
  clone j' := by
    by_cases hj : j' = j
    · exact hj ▸ h
    · rw [hconn _ (by simpa using hj)]
      exact hs.clone j'

end Sessions

/-- What a step does to the pipes: nothing, or a production connection adds bytes to its own, or a
clone connection takes bytes from its own. -/
inductive Flow (s t : State) (l l' : ℕ → Ledger) : Prop
  | quiet (hpipe : t.pipe = s.pipe) (hl : ∀ i, (l' i).kept = (l i).kept)
      (htaken : ∀ j, (t.conn (.clone j)).taken = (s.conn (.clone j)).taken)
  | feed {i : ℕ} {q : PipeId} {bs : List Byte} (hindex : s.index (.prod i) = some q.val)
      (hkept : (l' i).kept.flatten = (l i).kept.flatten ++ bs)
      (hbuf : (t.pipe q).buf = (s.pipe q).buf ++ bs) (hpipe : ∀ r ≠ q, t.pipe r = s.pipe r)
      (hl : ∀ i' ≠ i, l' i' = l i')
      (htaken : ∀ j, (t.conn (.clone j)).taken = (s.conn (.clone j)).taken)
  | drain {j : ℕ} {q : PipeId} (hindex : s.index (.clone j) = some q.val)
      (hmove : (t.conn (.clone j)).taken ++ (t.pipe q).buf =
        (s.conn (.clone j)).taken ++ (s.pipe q).buf)
      (hpipe : ∀ r ≠ q, t.pipe r = s.pipe r) (hl : l' = l)
      (htaken : ∀ j' ≠ j, (t.conn (.clone j')).taken = (s.conn (.clone j')).taken)

section Step

variable {cfg : Config} {s t : State} {l l' : ℕ → Ledger} {k : Conn}

/-- A step of one connection that touches no pipe. -/
theorem Flow.of_conn (hconn : ∀ k' ≠ k, t.conn k' = s.conn k') (hpipe : t.pipe = s.pipe)
    (htaken : ∀ j, k = .clone j → (t.conn k).taken = (s.conn k).taken) : Flow s t l l := by
  refine .quiet hpipe (fun _ => rfl) fun j => ?_
  by_cases hk : .clone j = k
  · rw [hk]
    exact htaken j hk.symm
  · rw [hconn _ hk]

/-- A handler that moves before its forks takes nothing from a pipe. -/
theorem Connection.taken_setMain (x : Connection) (p : Process) :
    (x.setProc .main p).taken = x.taken := by
  simp [taken, unsent, setProc]

theorem Sessions.accept (hs : Sessions s l) (hheld : Held s) (hvacant : Vacant s) (addr : String) :
    Sessions (s.accept cfg addr) l ∧ Flow s (s.accept cfg addr) l l := by
  have hpipes (code : Code) (m : Process) (hm : (accepted s.server code).proc .main = some m) :
      m =
        { code := code
          fds :=
            { pc := .read, socks := fun e => e = .client, rd := fun _ => true,
              wr := fun _ => true } } := by
    simp only [accepted, Option.some.injEq] at hm
    rw [← hm, funext hheld.rd, funext hheld.wr]
  have hchildren (code : Code) (pid : Pid) (hpid : pid ≠ .main) :
      (accepted s.server code).proc pid = none := by
    cases pid <;> first | exact absurd rfl hpid | rfl
  unfold State.accept
  split_ifs
  · have hconn : ∀ k ≠ .prod s.prods, Function.update s.conn (.prod s.prods)
        (accepted s.server .createConnection) k = s.conn k :=
      fun k hk => Function.update_of_ne hk ..
    refine ⟨hs.update_prod hconn (fun _ _ => rfl) ?_, .of_conn hconn rfl (by simp)⟩
    have hnone : (s.conn (.prod s.prods)).proc .second = none :=
      hvacant (.prod s.prods) .second (Nat.lt_irrefl _)
    rw [((hs.prod s.prods).fresh hnone).1]
    simp only [Function.update_self]
    refine .of_main ⟨hchildren _, fun m hm => ?_⟩ rfl
    rw [hpipes _ m hm]
    refine ⟨by simp, fun _ e _ he => ?_, fun _ => ⟨fun _ => rfl, fun _ => rfl⟩⟩
    simpa using he
  · have hconn : ∀ k ≠ .clone s.clones, Function.update s.conn (.clone s.clones)
        (accepted s.server .getCounters) k = s.conn k := fun k hk => Function.update_of_ne hk ..
    have hnone : ∀ pid, (s.conn (.clone s.clones)).proc pid = none :=
      fun pid => hvacant (.clone s.clones) pid (Nat.lt_irrefl _)
    refine ⟨hs.update_clone hconn ?_, .of_conn hconn rfl fun j _ => ?_⟩
    · simp only [Function.update_self]
      refine .of_main ⟨hchildren _, fun m hm => ?_⟩ ⟨⟨rfl, rfl, rfl⟩, rfl⟩ rfl
      rw [hpipes _ m hm]
      refine ⟨by simp, fun _ e he _ => ?_, fun _ => ⟨fun _ => rfl, fun _ => rfl⟩⟩
      simpa using he
    · simp only [Function.update_self]
      rw [Connection.taken, Connection.taken, (hs.clone s.clones).fresh (hnone .second),
        Connection.unsent, Connection.unsent, hnone .second]
      rfl
  · exact ⟨hs, .quiet rfl (fun _ => rfl) fun _ => rfl⟩

theorem Sessions.peer (hs : Sessions s l) {e : End} {ev : Sock.Peer}
    (ha : KeepsOpen (.peer k e ev)) (h : (aggregator cfg).step s (.peer k e ev) = some t) :
    Sessions t l ∧ Flow s t l l := by
  obtain ⟨x, hx, rfl⟩ := step_peer h
  obtain ⟨hissued, hshut⟩ := Sock.peer_eq hx
  have hconn : ∀ k' ≠ k, (s.setWorld k ((s.world k).setSock e x)).conn k' = s.conn k' :=
    fun k' hk' => State.setWorld_conn_of_ne hk'
  have hsent : (((s.world k).setSock e x).sock .client).sent = ((s.conn k).sock .client).sent := by
    rw [World.setSock_sock]
    split_ifs with he
    · subst he
      rw [Sock.sent, Sock.sent, hissued]
    · rfl
  refine ⟨?_, .of_conn hconn rfl fun j hj => ?_⟩
  · cases k with
    | prod i =>
      refine hs.update_prod hconn (fun _ _ => rfl) ?_
      rw [State.setWorld_conn_self]
      refine (hs.prod i).setSock hsent fun hclosed => ?_
      rw [World.setSock_sock]
      split_ifs with he
      · subst he
        exact hclosed.peer hx
      · exact hclosed
    | clone j =>
      refine hs.update_clone hconn ?_
      rw [State.setWorld_conn_self]
      refine (hs.clone j).setSock ?_ hsent
      have hintact := (hs.clone j).intact
      rw [World.setSock_sock]
      split_ifs with he
      · subst he
        refine ⟨hintact.toLive.peer ?_ ?_ hx, hshut.trans hintact.shut⟩
        · rintro rfl
          exact (ha j).1 rfl
        · rintro rfl
          exact (ha j).2 rfl
      · exact hintact
  · rw [State.setWorld_conn_self, Connection.taken, Connection.taken, hsent]
    rfl

theorem Sessions.connect (hs : Sessions s l) {i : ℕ} {ok : Bool}
    (h : (aggregator cfg).step s (.connect i ok) = some t) : Sessions t l ∧ Flow s t l l := by
  obtain ⟨p, hp, hcode, rfl⟩ := step_connect h
  have hmain := (hs.prod i).main p hp
  have hforks : (∀ c, p.code ≠ .fork2 c) ∧ ¬ p.code.Forked := by simp [hcode, Code.Forked]
  cases ok with
  | false =>
    have hconn : ∀ k ≠ .prod i, (s.setProcess (.prod i) .main (p.goto (.exited none))).conn k =
        s.conn k := fun k hk => State.setProcess_conn_of_ne hk
    refine ⟨hs.update_prod hconn (fun _ _ => rfl) ?_, .of_conn hconn rfl (by simp)⟩
    rw [if_neg (by simp), State.setProcess_conn_self]
    exact (hs.prod i).setMain hp hforks.1 hforks.2 (.exited p none)
  | true =>
    have hconn : ∀ k ≠ .prod i, (s.connected i p).conn k = s.conn k := fun k hk =>
      (State.setProcess_conn_of_ne hk).trans (State.setWorld_conn_of_ne hk)
    refine ⟨hs.update_prod hconn (fun _ _ => rfl) ?_, .of_conn hconn rfl (by simp)⟩
    rw [if_pos rfl, State.connected, State.setProcess_conn_self, State.setWorld_conn_self]
    have hsock : ((s.world (.prod i)).setSock .remote {}).sock .client =
        (s.conn (.prod i)).sock .client := World.setSock_sock_of_ne _ (by simp) _
    have hx := (hs.prod i).setSock (f := ((s.world (.prod i)).setSock .remote {}).sock)
      (congrArg Sock.sent hsock) fun hclosed => hsock.symm ▸ hclosed
    have hsocks : ∀ e, Function.update p.fds.socks .remote true e = true := by
      intro e
      cases e with
      | client =>
        rw [Function.update_of_ne (by simp)]
        exact hmain.socks (by simp [hcode]) .client (Set.mem_univ _) (Or.inl rfl)
      | remote => exact Function.update_self ..
    exact hx.setMain hp hforks.1 hforks.2
      ⟨by simp, fun _ e _ _ => hsocks e, fun _ => hmain.pipes (by simp [hcode])⟩

theorem Sessions.count (hs : Sessions s l) (h : (aggregator cfg).step s (.count k) = some t) :
    Sessions t l ∧ Flow s t l l := by
  obtain ⟨p, m, code, hp, hx, rfl⟩ := step_count h
  obtain ⟨hexited, hcreate, hfork, hcall⟩ := handleCounters_code hx
  have hforked : ¬ p.code.Forked := fun hc => hc.elim fun c => hexited _
  have hconn : ∀ k' ≠ k, (State.setProcess { s with shm := m } k .main (p.goto code)).conn k' =
      s.conn k' := fun k' hk' => State.setProcess_conn_of_ne hk'
  have hself : (State.setProcess { s with shm := m } k .main (p.goto code)).conn k =
      (s.conn k).setProc .main (p.goto code) := State.setProcess_conn_self ..
  refine ⟨?_, .of_conn hconn rfl fun j _ => hself ▸ Connection.taken_setMain _ _⟩
  cases k with
  | prod i =>
    refine hs.update_prod hconn (fun _ _ => rfl) ?_
    rw [hself]
    exact (hs.prod i).setMain hp hfork hforked (((hs.prod i).main p hp).goto hexited hcreate hcall)
  | clone j =>
    refine hs.update_clone hconn ?_
    rw [hself]
    exact (hs.clone j).setMain hp hfork hforked
      (((hs.clone j).main p hp).goto hexited hcreate hcall)

theorem Sessions.fork (hs : Sessions s l) {pid : Pid}
    (h : (aggregator cfg).step s (.fork k pid) = some t) : Sessions t l ∧ Flow s t l l := by
  obtain ⟨p, code, child, start, hp, hx, rfl⟩ := step_fork h
  have hconn : ∀ k' ≠ k, ((s.setProcess k pid (p.goto code)).setProcess k child
      (p.child start)).conn k' = s.conn k' := fun k' hk' =>
    (State.setProcess_conn_of_ne hk').trans (State.setProcess_conn_of_ne hk')
  have hself : ((s.setProcess k pid (p.goto code)).setProcess k child (p.child start)).conn k =
      ((s.conn k).setProc pid (p.goto code)).setProc child (p.child start) := by
    rw [State.setProcess_conn_self, State.setProcess_conn_self]
  refine ⟨?_, .of_conn hconn rfl fun j hj => ?_⟩
  · cases k with
    | prod i =>
      refine hs.update_prod hconn (fun _ _ => rfl) ?_
      rw [hself]
      exact (hs.prod i).fork hp hx
    | clone j =>
      refine hs.update_clone hconn ?_
      rw [hself]
      exact ((hs.clone j).fork hp hx).1
  · subst hj
    rw [hself, Connection.taken, Connection.taken, ((hs.clone j).fork hp hx).2]
    rfl

theorem Sessions.io (hs : Sessions s l) (hheld : Held s) {pid : Pid} {c : Choice}
    (h : (aggregator cfg).step s (.io k pid c) = some t) :
    Sessions t (s.ledgers (.io k pid c) l) ∧ Flow s t l (s.ledgers (.io k pid c) l) := by
  have hconn : ∀ k' ≠ k, t.conn k' = s.conn k' := by
    intro k' hk'
    obtain ⟨p, L, -, -, ⟨-, -, rfl⟩ | ⟨-, w, fds, -, rfl⟩⟩ := step_io h
    · exact State.setProcess_conn_of_ne hk'
    · exact (State.setProcess_conn_of_ne hk').trans (State.setWorld_conn_of_ne hk')
  cases k with
  | prod i =>
    obtain ⟨hprod, hflow⟩ := (hs.prod i).io hheld h
    have hself : s.ledgers (.io (.prod i) pid c) l i = s.record i pid c (l i) :=
      Function.update_self ..
    have hother : ∀ i' ≠ i, s.ledgers (.io (.prod i) pid c) l i' = l i' :=
      fun i' hi' => Function.update_of_ne hi' ..
    have htaken : ∀ j, (t.conn (.clone j)).taken = (s.conn (.clone j)).taken :=
      fun j => by rw [hconn _ (by simp)]
    refine ⟨hs.update_prod hconn hother (hself ▸ hprod), ?_⟩
    obtain ⟨hpipe, hrecord⟩ | ⟨q, bs, hindex, hkept, hbuf, hpipe⟩ := hflow
    · refine .quiet hpipe (fun i' => ?_) htaken
      by_cases hi' : i' = i
      · rw [hi', hself, hrecord]
      · rw [hother i' hi']
    · exact .feed hindex (hself ▸ hkept) hbuf hpipe hother htaken
  | clone j =>
    obtain ⟨hclone, hflow⟩ := (hs.clone j).io hheld h
    refine ⟨hs.update_clone hconn hclone, ?_⟩
    obtain ⟨hpipe, hsent, hunsent⟩ | ⟨q, hindex, hmove, hpipe⟩ := hflow
    · exact .of_conn hconn hpipe fun j' hj' => by
        rw [Connection.taken, Connection.taken, hsent, hunsent]
    · exact .drain hindex hmove hpipe rfl fun j' hj' => by rw [hconn _ (by simpa using hj')]

/-- Every step keeps the sessions in order. -/
theorem Sessions.step (hs : Sessions s l) (hheld : Held s) (hvacant : Vacant s) {a : Act}
    (ha : KeepsOpen a) (h : (aggregator cfg).step s a = some t) :
    Sessions t (s.ledgers a l) ∧ Flow s t l (s.ledgers a l) := by
  cases a with
  | accept addr =>
    cases h
    exact hs.accept hheld hvacant addr
  | peer k e ev => exact hs.peer ha h
  | connect i ok => exact hs.connect h
  | count k => exact hs.count h
  | fork k pid => exact hs.fork h
  | io k pid c => exact hs.io hheld h

/-- In its counter section a connection has no second process yet. -/
theorem Sessions.second_eq_none (hs : Sessions s l)
    (h : (aggregator cfg).step s (.count k) = some t) : (t.conn k).proc .second = none := by
  obtain ⟨p, m, code, hp, hx, rfl⟩ := step_count h
  obtain ⟨hexited, -, hfork, -⟩ := handleCounters_code hx
  have hlineage : Lineage (s.conn k).proc := by
    cases k with
    | prod i => exact (hs.prod i).lineage
    | clone j => exact (hs.clone j).lineage
  have hself : (State.setProcess { s with shm := m } k .main (p.goto code)).conn k =
      (s.conn k).setProc .main (p.goto code) := State.setProcess_conn_self ..
  rw [hself, Connection.setProc_proc_of_ne _ (by simp)]
  refine hlineage.alone (fun m hm => ?_) .second (by simp)
  obtain rfl := Option.some.inj (hp.symm.trans hm)
  exact ⟨hfork, fun hc => hc.elim fun c => hexited _⟩

end Step

/-! ### Conservation -/

section Conservation

variable {cfg : Config} {s t : State} {h : History} {l' : ℕ → Ledger} {a : Act}

/-- A connection that has contributed nothing may take its place in the order. -/
theorem elim_append {f : ℕ → List Byte} {i : ℕ} (hf : f i = []) (l : List ℕ) (c : ℕ) :
    ((l ++ [i])[c]?).elim [] f = (l[c]?).elim [] f := by
  rcases Nat.lt_trichotomy c l.length with hc | rfl | hc
  · rw [List.getElem?_append_left hc]
  · simp [hf]
  · rw [List.getElem?_eq_none (by simpa using hc), List.getElem?_eq_none hc.le]

/-- What a step moves, it moves between the two ends of one pipe. -/
theorem Flow.conserved (hflow : Flow s t h.ledger l')
    (hprods : Listed h.prods fun i => s.index (.prod i))
    (hclones : Listed h.clones fun j => s.index (.clone j)) (q : PipeId)
    (hq : h.taken s q ++ (s.pipe q).buf = h.fed q) :
    History.taken { h with ledger := l' } t q ++ (t.pipe q).buf =
      History.fed { h with ledger := l' } q := by
  have hsame (htaken : ∀ j, h.clones[q.val]? = some j →
      (t.conn (.clone j)).taken = (s.conn (.clone j)).taken) :
      History.taken { h with ledger := l' } t q = h.taken s q := by
    simp only [History.taken]
    cases hj : h.clones[q.val]? with
    | none => rfl
    | some j => exact htaken j hj
  have hfed (hkept : ∀ i, h.prods[q.val]? = some i → (l' i).kept = (h.ledger i).kept) :
      History.fed { h with ledger := l' } q = h.fed q := by
    simp only [History.fed]
    cases hi : h.prods[q.val]? with
    | none => rfl
    | some i => exact congrArg List.flatten (hkept i hi)
  cases hflow with
  | quiet hpipe hl htaken =>
    rw [hsame fun j _ => htaken j, hfed fun i _ => hl i, hpipe]
    exact hq
  | @feed i r bs hindex hkept hbuf hpipe hl htaken =>
    rw [hsame fun j _ => htaken j]
    have hi : h.prods[r.val]? = some i := (hprods r.val i).mpr hindex
    by_cases hqr : q = r
    · subst hqr
      rw [hbuf, ← List.append_assoc, hq]
      simp [History.fed, hi, hkept]
    · rw [hpipe q hqr, hfed, hq]
      intro i' hi'
      rw [hl i']
      rintro rfl
      have hq' : s.index (.prod i') = some q.val := (hprods _ _).mp hi'
      exact hqr (Fin.ext (Option.some.inj (hq'.symm.trans hindex)))
  | @drain j r hindex hmove hpipe hl htaken =>
    rw [hfed fun i _ => by rw [hl]]
    have hj : h.clones[r.val]? = some j := (hclones r.val j).mpr hindex
    by_cases hqr : q = r
    · subst hqr
      simp only [History.taken, hj, Option.elim_some] at hq ⊢
      rw [hmove, hq]
    · rw [hpipe q hqr, hsame, hq]
      intro j' hj'
      refine htaken j' ?_
      rintro rfl
      have hq' : s.index (.clone j') = some q.val := (hclones _ _).mp hj'
      exact hqr (Fin.ext (Option.some.inj (hq'.symm.trans hindex)))

theorem Serial.listed_prods {o : Order} (hs : Serial s.shm s.phase o) :
    Listed o.prods fun i => s.index (.prod i) := by
  rw [show (fun i => s.index (.prod i)) = indices .first s.phase from
    funext fun i => s.index_eq _]
  exact hs.listed .first

theorem Serial.listed_clones {o : Order} (hs : Serial s.shm s.phase o) :
    Listed o.clones fun j => s.index (.clone j) := by
  rw [show (fun j => s.index (.clone j)) = indices .second s.phase from
    funext fun j => s.index_eq _]
  exact hs.listed .second

theorem Linked.listening (cap : PipeId → ℕ) : Linked (listening cap) {} where
  held := .listening cap
  indexed := .listening cap
  serial := .listening cap
  sessions := .listening cap
  pipe _ := rfl

/-- **The invariant is kept by every step.** -/
theorem Linked.step (hs : Linked s h) (ha : SectionAlone s a) (hopen : KeepsOpen a)
    (hstep : (aggregator cfg).step s a = some t) : Linked t (h.update s a) := by
  have hvacant := hs.indexed.vacant
  obtain ⟨hsessions, hflow⟩ := hs.sessions.step hs.held hvacant hopen hstep
  refine ⟨hs.held.step hstep, hs.indexed.step hstep, hs.serial.step hvacant ha hstep, hsessions,
    fun q => ?_⟩
  have hmoved := hflow.conserved hs.serial.listed_prods hs.serial.listed_clones q (hs.pipe q)
  -- only a counter section changes the order, and its connection has no second process yet
  cases a with
  | count k =>
    have hnone := hs.sessions.second_eq_none hstep
    cases k with
    | prod i =>
      have hfresh := ((hsessions.prod i).fresh hnone).1
      simp only [History.update, Order.update]
      split
      · simp only [History.fed, History.taken] at hmoved ⊢
        rw [elim_append (by rw [hfresh]; rfl)]
        exact hmoved
      · exact hmoved
    | clone j =>
      have hfresh : (t.conn (.clone j)).taken = [] := by
        rw [Connection.taken, Connection.unsent, hnone, (hsessions.clone j).fresh hnone]
        rfl
      simp only [History.update, Order.update]
      split
      · split_ifs
        · exact hmoved
        · simp only [History.fed, History.taken] at hmoved ⊢
          rw [elim_append (f := fun j => (t.conn (.clone j)).taken) hfresh]
          exact hmoved
      · exact hmoved
  | _ => exact hmoved

end Conservation

/-! ### The replay -/

/-- A process of a connection goes by the index of a pipe. -/
def State.Uses (s : State) (k : Conn) (q : PipeId) : Prop :=
  ∃ pid p, s.process k pid = some p ∧ p.code.index = some q.val

/-- What the `i`-th production and the `j`-th clone connection accepted have in common: they alone
use the pipe `q`, and the bytes sent to the clone, in the hands of its reader and in the pipe are
the chunks whose write on the pipe succeeded. While none fails, the clone has been sent a part of
what the responses passed to `send` for production begin with, and of what production has been sent
as long as nobody has shut down or reset that connection. -/
structure Replays (s : State) (l : Ledger) (q : PipeId) (i j : ℕ) : Prop where
  uses : ∀ k, s.Uses k q ↔ k = .prod i ∨ k = .clone j
  bytes : ((s.conn (.clone j)).sock .client).sent ++ (s.conn (.clone j)).unsent ++ (s.pipe q).buf =
    l.kept.flatten
  passed : (∀ x ∈ l.written, x.2 = true) →
    ((s.conn (.clone j)).sock .client).sent <+: l.received.flatten
  sent : (∀ x ∈ l.written, x.2 = true) → ¬ ((s.conn (.prod i)).sock .client).Closed →
    ((s.conn (.clone j)).sock .client).sent <+: ((s.conn (.prod i)).sock .client).sent

/-- The history of a run. -/
def history (cfg : Config) (cap : PipeId → ℕ) (as : List Act) : History :=
  (aggregator cfg).track (fun s a h => h.update s a) (listening cap) as {}

section Replays

variable {s : State} {h : History} {k : Conn} {q : PipeId} {i j : ℕ}

theorem Linked.uses_iff (hs : Linked s h) : s.Uses k q ↔ s.index k = some q.val := by
  constructor
  · rintro ⟨pid, p, hp, hq⟩
    cases k with
    | prod i => exact (hs.sessions.prod i).lineage.index_eq hp hq
    | clone j => exact (hs.sessions.clone j).lineage.index_eq hp hq
  · intro hq
    obtain ⟨p, hp, hpq⟩ := Option.bind_eq_some_iff.mp hq
    exact ⟨.main, p, hp, hpq⟩

theorem Linked.replays (hs : Linked s h) (hi : h.prods[q.val]? = some i)
    (hj : h.clones[q.val]? = some j) : Replays s (h.ledger i) q i j := by
  have hprods := hs.serial.listed_prods
  have hclones := hs.serial.listed_clones
  have hbytes : ((s.conn (.clone j)).sock .client).sent ++ (s.conn (.clone j)).unsent ++
      (s.pipe q).buf = (h.ledger i).kept.flatten := by
    simpa [History.taken, History.fed, hi, hj, Connection.taken] using hs.pipe q
  -- all chunks tried are kept, so what has been sent to the clone begins what has been tried
  have htried (hok : ∀ x ∈ (h.ledger i).written, x.2 = true) :
      ((s.conn (.clone j)).sock .client).sent <+:
        ((h.ledger i).written.map Prod.fst).flatten := by
    rw [← Ledger.kept_eq hok, ← hbytes, List.append_assoc]
    exact List.prefix_append _ _
  refine ⟨fun k => ?_, hbytes, fun hok => ?_, fun hok hopen => ?_⟩
  · rw [hs.uses_iff]
    constructor
    · intro hk
      cases k with
      | prod i' => exact Or.inl (by simpa [hi, eq_comm] using (hprods q.val i').mpr hk)
      | clone j' => exact Or.inr (by simpa [hj, eq_comm] using (hclones q.val j').mpr hk)
    · rintro (rfl | rfl)
      · exact (hprods q.val i).mp hi
      · exact (hclones q.val j).mp hj
  · cases hp : (s.conn (.prod i)).proc .second with
    | none =>
      have hfresh := ((hs.sessions.prod i).fresh hp).1
      rw [hfresh] at htried ⊢
      simpa using htried
    | some p =>
      obtain ⟨more, hmore⟩ := ((hs.sessions.prod i).second p hp).accounted.prior
      rw [← hmore, List.flatten_append]
      exact (htried hok).trans (List.prefix_append _ _)
  · cases hp : (s.conn (.prod i)).proc .second with
    | none =>
      have hfresh := ((hs.sessions.prod i).fresh hp).1
      have hnil := htried hok
      rw [hfresh] at hnil
      rw [List.prefix_nil.mp hnil]
      exact List.nil_prefix
    | some p =>
      have hfeeding := (hs.sessions.prod i).second p hp
      obtain ⟨hdelivered, hkilled⟩ := hfeeding.delivered hopen
      exact (htried hok).trans (hdelivered.sent_eq hfeeding.accounted hkilled).2

end Replays

/-- **The clones replay production.** Take a run with at most `NUM_CONNS` production connections
whose handlers take turns in their counter sections and whose clones keep their side open. The
connections get the indices in the order of their sections; the `c`-th production connection whose
backend connect has succeeded and the `c`-th clone connection that has passed the order check alone
use the `c`-th pipe, and the clone is sent, in order, the chunks of that production connection whose
write on the pipe succeeded. -/
theorem clones_replay {cfg : Config} {cap : PipeId → ℕ} {as : List Act} {s : State}
    (hrun : (aggregator cfg).run (listening cap) as = some s)
    (hserial : (aggregator cfg).Along SectionAlone (listening cap) as)
    (hopen : ∀ a ∈ as, KeepsOpen a) (hle : s.prods ≤ numConns) :
    (∀ c i : ℕ, (history cfg cap as).prods[c]? = some i ↔ s.index (.prod i) = some c) ∧
      (∀ c j : ℕ, (history cfg cap as).clones[c]? = some j ↔ s.index (.clone j) = some c) ∧
      (∀ c j : ℕ, (history cfg cap as).clones[c]? = some j →
        ∃ i, (history cfg cap as).prods[c]? = some i) ∧
      ∀ c i j : ℕ, (history cfg cap as).prods[c]? = some i →
        (history cfg cap as).clones[c]? = some j →
        ∃ q, pipesArr c = some q ∧ Replays s ((history cfg cap as).ledger i) q i j := by
  have hlinked : Linked s (history cfg cap as) :=
    (hserial.and (Machine.along_of_forall_mem hopen _)).track_invariant
      (J := fun s h => Linked s h) (fun s a t h hs ha => hs.step ha.1 ha.2) (.listening cap) hrun
  have hprods := hlinked.serial.listed_prods
  have hclones := hlinked.serial.listed_clones
  refine ⟨hprods, hclones, fun c j hj => ?_, fun c i j hi hj => ?_⟩
  · obtain ⟨i, hi⟩ := hlinked.serial.orderGuard.2.1 j c ((hclones c j).mp hj)
    exact ⟨i, (hprods c i).mpr hi⟩
  · obtain ⟨p, hp, hpc⟩ := Option.bind_eq_some_iff.mp ((hprods c i).mp hi)
    have hc : c < numConns := ((hlinked.indexed.sound i .main p hp).index c hpc).trans_le hle
    exact ⟨⟨c, hc⟩, dif_pos hc, hlinked.replays hi hj⟩

/-- The production container resets its connection while a response is on its way. -/
def resetReplayed : List Act :=
  takeZero ++ [.fork (.prod 0) .main, .fork (.prod 0) .main,
    .peer (.prod 0) .remote (.deliver [7, 8]), .io (.prod 0) .second (.run 2),
    .peer (.prod 0) .client .reset, .io (.prod 0) .second (.run 0),
    .io (.prod 0) .second (.write true), .accept "10.0.0.2",
    .count (.clone 0), .count (.clone 0), .count (.clone 0), .count (.clone 0), .count (.clone 0),
    .count (.clone 0), .count (.clone 0), .fork (.clone 0) .main, .fork (.clone 0) .main,
    .peer (.clone 0) .client (.drain 8), .io (.clone 0) .second (.run 2),
    .io (.clone 0) .second (.run 2)]

theorem clones_replay_replayed :
    ∃ s, (aggregator twoHosts).run (listening fun _ => 2) replayed = some s ∧
      ∃ q, pipesArr 0 = some q ∧
        Replays s ((history twoHosts (fun _ => 2) replayed).ledger 0) q 0 0 := by
  have hprods : ((aggregator twoHosts).run (listening fun _ => 2) replayed).map State.prods =
      some 1 := by decide
  obtain ⟨s, hrun, hs⟩ := Option.map_eq_some_iff.mp hprods
  obtain ⟨-, -, -, hreplays⟩ := clones_replay hrun (sectionAlone_of_check (by decide))
    (by simp [replayed, takeZero, KeepsOpen]) (by rw [hs]; decide)
  exact ⟨s, hrun, hreplays 0 0 0 (by decide) (by decide)⟩

theorem clones_replay_fails : ¬ ∀ (cfg : Config) (cap : PipeId → ℕ) (as : List Act) (s : State),
    (aggregator cfg).run (listening cap) as = some s →
    (aggregator cfg).Along SectionAlone (listening cap) as → (∀ a ∈ as, KeepsOpen a) →
    s.prods ≤ numConns → ∀ c i j : ℕ, (history cfg cap as).prods[c]? = some i →
    (history cfg cap as).clones[c]? = some j →
    (∀ x ∈ ((history cfg cap as).ledger i).written, x.2 = true) →
    ((s.conn (.clone j)).sock .client).sent <+: ((s.conn (.prod i)).sock .client).sent := by
  intro hall
  have hsent : ((aggregator twoHosts).run (listening fun _ => 2) resetReplayed).map (fun s =>
      (s.prods, ((s.conn (.clone 0)).sock .client).sent, ((s.conn (.prod 0)).sock .client).sent)) =
        some (1, [7, 8], []) := by decide
  obtain ⟨s, hrun, hs⟩ := Option.map_eq_some_iff.mp hsent
  simp only [Prod.mk.injEq] at hs
  have hbegins := hall twoHosts _ resetReplayed s hrun (sectionAlone_of_check (by decide))
    (by simp [resetReplayed, takeZero, KeepsOpen]) (by rw [hs.1]; decide) 0 0 0 (by decide)
    (by decide) (by decide)
  rw [hs.2.1, hs.2.2] at hbegins
  exact absurd hbegins (by decide)

end Parikshan.Aggregator
