import Parikshan.NioProxy.Placement

/-!
# What the clients of a proxy receive

However many workers there are, and whatever they do to other connectors, a connector is served as
if it were alone: the operations that its worker has yet to process for it, among those for others,
are those of the keys that the selector has returned for it, and no other worker touches it. So what
has been said about one connector holds for each connector of a proxy: of what a peer has sent since
the connection was accepted, what has been written on, what is in the buffer and what has arrived is
a prefix, in every run.

An interrupted worker that is about to read or write may close the connector, which cuts the streams
off.

## Main definitions

* `State.pending`: the operations for a connector that a worker has yet to process.
* `spoken`: what a peer has sent.
* `Serves`: the invariant of a connector.

## Main results

* `tcpProxy_relayed`: the streams of all connectors in every run.
-/

namespace Parikshan.NioProxy.Server

open Posix

/-- The operation of a call for a connector. -/
def Call.on (c : ℕ) : Call → Option (Side × Op)
  | .accept _ => none
  | .connector c' x => if c' = c then some x else none

/-- The operations for a connector that a worker has yet to process. -/
def State.pending (s : State) (w : Worker) (c : ℕ) : List (Side × Op) :=
  (s.pc w).calls.filterMap (Call.on c)

/-- What a peer sends. -/
def Act.payload (c : ℕ) (i : Side) : Act → List Byte
  | .peer c' i' ev => if c' = c ∧ i' = i then ev.payload else []
  | _ => []

/-- What the peer of a channel has sent. -/
def spoken (c : ℕ) (i : Side) (as : List Act) : List Byte := as.flatMap (Act.payload c i)

/-- The invariant of a connector, with the operations that are pending for it at each worker. -/
def Serves (past : List Act) (c : ℕ) (pending : Worker → List (Side × Op)) : Connector → Prop
  | .absent => ∀ i, spoken c i past = []
  | .constructed client => spoken c .server past = [] ∧
      ∀ x, client = some x → Untouched x ∧ x.inq = spoken c .client past
  | .registered w u => Relaying { u with selected := pending w } ∧ ∀ i, u.said i = spoken c i past
  | .destroyed => True
  | .abandoned _ => True

/-! ### One connector among others -/

section Connector

variable {u u' : NioProxy.State} {k : ℕ} {x : Side × Op} {cs : List (Side × Op)}

/-- The calls do not depend on the operations that follow. -/
theorem call_selected : ({ u with selected := cs } : NioProxy.State).call k x =
    (({ u with selected := [] } : NioProxy.State).call k x).map
      fun u' => { u' with selected := cs } := by
  obtain ⟨i, op⟩ := x
  cases op with
  | read =>
    rw [State.call_read, State.call_read, NioProxy.State.readFrom, NioProxy.State.readFrom,
      Option.map_map]
    refine Option.map_congr fun z _ => ?_
    obtain ⟨r, y⟩ := z
    cases r with
    | ok b =>
      simp only [Function.comp_apply, NioProxy.State.registerIf]
      split_ifs <;> rfl
    | error e => rfl
  | write =>
    rw [State.call_write, State.call_write, NioProxy.State.writeTo, NioProxy.State.writeTo,
      Option.map_map]
    refine Option.map_congr fun z _ => ?_
    obtain ⟨r, y⟩ := z
    cases r with
    | ok b =>
      simp only [Function.comp_apply, NioProxy.State.registerIf]
      split_ifs <;> rfl
    | error e => rfl

/-- An operation is a step of the connector, whatever follows. -/
theorem process_cons (h : ({ u with selected := [x] } : NioProxy.State).process k = some u') :
    connector.step { u with selected := x :: cs } (.process k) =
      some { u' with selected := cs } := by
  change ({ u with selected := x :: cs } : NioProxy.State).process k = _
  simp only [NioProxy.State.process] at h ⊢
  split_ifs at h ⊢ with hclosed
  · rw [← Option.some.inj h]
  · rw [call_selected, h]
    rfl

/-- Only the peers send. -/
theorem process_said (h : u.process k = some u') : u'.said = u.said := by
  have hstep : connector.step u (.process k) = some u' := h
  cases NioProxy.trans_of_step hstep with
  | skip hselected hclosed => rfl
  | read hselected hopen hcall => rw [State.registerIf_said]
  | readThrows hselected hopen hcall => rfl
  | write hselected hopen hcall => rw [State.registerIf_said]
  | writeThrows hselected hopen hcall => rfl

end Connector

/-! ### The keys of one connector -/

section Keys

variable {s : State} {w : Worker} {c : ℕ} {ks : List Key}

/-- A key of a connector: its channel, and the operations for which it is ready. -/
def Key.on (c : ℕ) : Key → Option (Side × Ops)
  | .acceptor _ => none
  | .connector c' i r => if c' = c then some (i, r) else none

theorem calls_on (k : Key) (c : ℕ) :
    k.calls.filterMap (Call.on c) = (k.on c).toList.flatMap fun z => z.2.calls z.1 := by
  cases k with
  | acceptor g => rfl
  | connector c' i r =>
    by_cases hc : c' = c
    · simp [Key.calls, Key.on, List.filterMap_map, Function.comp_def, Call.on, hc]
    · simp [Key.calls, Key.on, List.filterMap_map, Function.comp_def, Call.on, hc]

/-- The operations for a connector are those of its keys. -/
theorem flatMap_calls_on (ks : List Key) (c : ℕ) :
    (ks.flatMap Key.calls).filterMap (Call.on c) =
      (ks.filterMap (Key.on c)).flatMap fun z => z.2.calls z.1 := by
  induction ks with
  | nil => rfl
  | cons k ks ih =>
    rw [List.flatMap_cons, List.filterMap_append, ih, calls_on]
    cases hk : k.on c with
    | none => rw [List.filterMap_cons_none hk]; rfl
    | some z => rw [List.filterMap_cons_some hk]; simp

theorem on_eq_some {k : Key} {i : Side} {r : Ops} :
    k.on c = some (i, r) ↔ k = .connector c i r := by
  cases k with
  | acceptor g => simp [Key.on]
  | connector c' i' r' =>
    simp only [Key.on, Option.ite_none_right_eq_some, Option.some.injEq, Prod.mk.injEq,
      Key.connector.injEq]

/-- There is one key for a channel. -/
theorem nodup_on (hnodup : (ks.map Key.channel).Nodup) :
    ((ks.filterMap (Key.on c)).map Prod.fst).Nodup := by
  induction ks with
  | nil => exact .nil
  | cons k ks ih =>
    obtain ⟨hk, hnodup⟩ := List.nodup_cons.mp hnodup
    cases hon : k.on c with
    | none =>
      rw [List.filterMap_cons_none hon]
      exact ih hnodup
    | some z =>
      rw [List.filterMap_cons_some hon, List.map_cons]
      refine List.nodup_cons.mpr ⟨fun hmem => hk ?_, ih hnodup⟩
      obtain ⟨⟨i, r⟩, hz, heq⟩ := List.mem_map.mp hmem
      obtain ⟨k', hk', hon'⟩ := List.mem_filterMap.mp hz
      obtain rfl := on_eq_some.mp hon'
      obtain rfl : i = z.1 := heq
      obtain rfl := on_eq_some.mp (show k.on c = some (z.1, z.2) from hon)
      exact List.mem_map.mpr ⟨_, hk', rfl⟩

/-- Distinct sides are at most two. -/
theorem pair_of_nodup {zs : List (Side × Ops)} (hnodup : (zs.map Prod.fst).Nodup)
    (hne : zs ≠ []) : ∃ i r r', zs.flatMap (fun z => z.2.calls z.1) =
      r.calls i ++ r'.calls i.other ∧ (i, r) ∈ zs ∧
        ((i.other, r') ∈ zs ∨ r' = ⟨false, false⟩) := by
  match zs with
  | [] => exact absurd rfl hne
  | [(i, r)] => exact ⟨i, r, ⟨false, false⟩, rfl, by simp, .inr rfl⟩
  | [(i, r), (j, r')] =>
    have hj : i ≠ j := by simpa using hnodup
    obtain rfl := (i.eq_or_eq_other j).resolve_left hj.symm
    exact ⟨i, r, r', by simp, by simp, .inl (by simp)⟩
  | (i, _) :: (j, _) :: (k, _) :: zs =>
    simp only [List.map_cons, List.nodup_cons, List.mem_cons, not_or] at hnodup
    cases i <;> cases j <;> cases k <;> simp at hnodup

/-- The connector is left with the operations of the keys that have been returned for it. -/
theorem relaying_select {u : NioProxy.State} (h : Relaying { u with selected := [] })
    (hnodup : (ks.map Key.channel).Nodup) (hks : ∀ k ∈ ks, s.Selectable w k)
    (hc : s.connector c = .registered w u) :
    Relaying { u with selected := (ks.flatMap Key.calls).filterMap (Call.on c) } := by
  have hready {i : Side} {r : Ops} (hmem : (i, r) ∈ ks.filterMap (Key.on c)) : u.Ready i r := by
    obtain ⟨k, hk, hon⟩ := List.mem_filterMap.mp hmem
    obtain rfl := on_eq_some.mp hon
    have hselectable : (s.connector c).Selectable w i r := hks _ hk
    rw [hc] at hselectable
    exact hselectable.2.2
  rw [flatMap_calls_on]
  by_cases hne : ks.filterMap (Key.on c) = []
  · rw [hne]
    exact h
  · obtain ⟨i, r, r', heq, hr, hr'⟩ := pair_of_nodup (nodup_on hnodup) hne
    rw [heq]
    refine h.select (i := i) (hready hr) ?_
    rcases hr' with hr' | rfl
    · exact hready hr'
    · exact ⟨by simp, by simp⟩

end Keys

/-! ### The invariant -/

section Spoken

variable {past : List Act} {a : Act} {c : ℕ} {i : Side}

theorem spoken_append : spoken c i (past ++ [a]) = spoken c i past ++ a.payload c i := by
  simp [spoken]

theorem spoken_of_silent (h : ∀ i, a.payload c i = []) :
    spoken c i (past ++ [a]) = spoken c i past := by
  rw [spoken_append, h, List.append_nil]

/-- Nothing happens to a connector. -/
theorem Serves.keep {x : Connector} {pending pending' : Worker → List (Side × Op)}
    (h : Serves past c pending x) (hsilent : ∀ i, a.payload c i = [])
    (hpending : ∀ w u, x = .registered w u → pending' w = pending w) :
    Serves (past ++ [a]) c pending' x := by
  cases x with
  | absent => exact fun i => (spoken_of_silent hsilent).trans (h i)
  | constructed client =>
    obtain ⟨hserver, hclient⟩ := h
    refine ⟨(spoken_of_silent hsilent).trans hserver, fun x hx => ?_⟩
    rw [spoken_of_silent hsilent]
    exact hclient x hx
  | registered w u =>
    obtain ⟨hrelaying, hsaid⟩ := h
    refine ⟨?_, fun i => (hsaid i).trans (spoken_of_silent hsilent).symm⟩
    rw [hpending w u rfl]
    exact hrelaying
  | destroyed => trivial
  | abandoned client => trivial

end Spoken

/-- The invariant of a proxy. -/
structure Serving (past : List Act) (s : State) : Prop where
  placed : Placed s
  serves : ∀ c, Serves past c (s.pending · c) (s.connector c)

namespace Serving

variable {cfg : TcpServerConfig} {s t : State} {w : Worker} {c : ℕ} {past : List Act} {a : Act}

theorem new : Serving [] .new := ⟨.new, fun _ _ => rfl⟩

/-- No worker has other operations for a connector after it has gone on so. -/
theorem pending_goto {p : Pc} (hp : p.calls.filterMap (Call.on c) = s.pending w c) (v : Worker) :
    (s.goto w p).pending v c = s.pending v c := by
  by_cases hv : v = w
  · subst hv
    rw [State.pending, s.goto_pc_self, hp]
  · rw [State.pending, s.goto_pc_of_ne p hv, State.pending]

/-- A step that is none of a peer, and leaves all connectors but one alone. -/
theorem of_other (h : Serving past s) (ht : Placed t) (hsilent : ∀ c i, a.payload c i = [])
    (c' : ℕ) (hself : Serves (past ++ [a]) c' (t.pending · c') (t.connector c'))
    (hother : ∀ c, c ≠ c' → t.connector c = s.connector c ∧ ∀ w, t.pending w c = s.pending w c) :
    Serving (past ++ [a]) t := by
  refine ⟨ht, fun c => ?_⟩
  by_cases hc : c = c'
  · subst hc
    exact hself
  · obtain ⟨hconnector, hpending⟩ := hother c hc
    rw [hconnector]
    exact (h.serves c).keep (hsilent c) fun w _ _ => hpending w

/-- A step that leaves all connectors alone. -/
theorem of_same (h : Serving past s) (ht : Placed t) (hsilent : ∀ c i, a.payload c i = [])
    (hconnector : t.connector = s.connector) (hpending : ∀ w c, t.pending w c = s.pending w c) :
    Serving (past ++ [a]) t := by
  refine ⟨ht, fun c => ?_⟩
  rw [hconnector]
  exact (h.serves c).keep (hsilent c) fun w _ _ => hpending w c

theorem started (h : Serving past s) : Serving (past ++ [.start]) (s.started cfg) := by
  refine h.of_same h.placed.started.placed (fun _ _ => rfl) rfl fun w c => ?_
  by_cases hw : w.1 = s.gen + 1 ∧ w.2 < cfg.workerCount
  · have hunborn := h.placed.worker w (hw.1 ▸ Nat.lt_succ_self _)
    simp only [State.pending, State.started, if_pos hw, hunborn]
    rfl
  · simp only [State.pending, State.started, if_neg hw]

/-- `register` of a connector ends. -/
theorem resolve (h : Serving past s) {r : Registration} {x : Connector} {p : Pc}
    (ht : Placed ((s.setConnector c x).goto w p)) (hpc : s.pc w = .register (.connector c))
    (hp : p.calls = [])
    (hx : Serves (past ++ [.register w r]) c (((s.setConnector c x).goto w p).pending · c) x) :
    Serving (past ++ [.register w r]) ((s.setConnector c x).goto w p) := by
  refine h.of_other ht (fun _ _ => rfl) c ?_ fun c' hc => ⟨Function.update_of_ne hc .., fun v => ?_⟩
  · change Serves _ c _ (Function.update s.connector c x c)
    rw [Function.update_self]
    exact hx
  · refine pending_goto (s := s.setConnector c x) ?_ v
    rw [hp, State.pending, State.setConnector, hpc]
    rfl

theorem connect (h : Serving past s) {room : ℕ} {x : Sock}
    (hpc : s.pc w = .register (.connector c)) (hc : s.connector c = .constructed (some x))
    (ht : Placed ((s.setConnector c (.registered w
      (NioProxy.registered (State.channels x room)))).goto w .select)) :
    Serving (past ++ [.register w (.registered room)]) ((s.setConnector c (.registered w
      (NioProxy.registered (State.channels x room)))).goto w .select) := by
  have hserves := h.serves c
  rw [hc] at hserves
  obtain ⟨hserver, hclient⟩ := hserves
  obtain ⟨hx, hinq⟩ := hclient x rfl
  refine h.resolve ht hpc rfl ⟨?_, fun i => ?_⟩
  · have hnil : ((s.setConnector c (.registered w (NioProxy.registered
        (State.channels x room)))).goto w .select).pending w c = [] := by
      rw [State.pending, State.goto_pc_self]
      rfl
    simp only [hnil]
    refine Relaying.registered fun i => ?_
    cases i with
    | client => exact hx
    | server => exact ⟨rfl, rfl, fun hrst => by cases hrst⟩
  · rw [spoken_of_silent fun _ => rfl]
    cases i with
    | client => exact hinq
    | server => exact hserver.symm

theorem accept (h : Serving past s) {g : ℕ} {r : Acceptance} {client : Option Sock}
    {cs : List Call} (hpc : s.pc w = .process (.accept g :: cs)) (hr : r.client = some client)
    (ht : Placed ((s.create g client).goto w (.process cs))) :
    Serving (past ++ [.accept w r]) ((s.create g client).goto w (.process cs)) := by
  have hpending (c : ℕ) (v : Worker) :
      ((s.create g client).goto w (.process cs)).pending v c = s.pending v c := by
    refine pending_goto (s := s.create g client) ?_ v
    simp [State.pending, State.create, State.setHandlers, hpc, Pc.calls, Call.on,
      List.filterMap_cons]
  refine h.of_other ht (fun _ _ => rfl) s.count ?_
    fun c hc => ⟨Function.update_of_ne hc .., hpending c⟩
  have habsent : s.connector s.count = .absent := by
    have hstatus : (s.connector s.count).status = .absent :=
      h.placed.born (.connector s.count) (lt_irrefl s.count)
    cases hc : s.connector s.count with
    | absent => rfl
    | _ => rw [hc] at hstatus; cases hstatus
  have hserves := h.serves s.count
  rw [habsent] at hserves
  change Serves _ _ _ (Function.update s.connector s.count (.constructed client) s.count)
  rw [Function.update_self]
  refine ⟨(spoken_of_silent fun _ => rfl).trans (hserves .server), fun x hx => ?_⟩
  rw [spoken_of_silent fun _ => rfl, hserves .client]
  subst hx
  cases r with
  | accepted room =>
    obtain rfl := Option.some.inj (Option.some.inj hr)
    exact ⟨⟨rfl, rfl, fun hrst => by cases hrst⟩, rfl⟩
  | _ => cases hr

/-- A worker has processed an operation of a connector. -/
theorem call (h : Serving past s) (hsilent : ∀ c i, a.payload c i = []) {v : Worker}
    {x : Side × Op} {cs : List Call} {u u' : NioProxy.State}
    (hpc : s.pc w = .process (.connector c x :: cs)) (hc : s.connector c = .registered v u)
    (ht : Placed ((s.setConnector c (.registered v u')).goto w (.process cs)))
    (hsaid : u'.said = u.said)
    (hstep : ∀ rest, Relaying { u with selected := x :: rest } →
      Relaying { u' with selected := rest }) :
    Serving (past ++ [a]) ((s.setConnector c (.registered v u')).goto w (.process cs)) := by
  -- the connector is registered with the worker that has an operation of it
  have hat := h.placed.calls w (.connector c x) (by rw [hpc]; exact List.mem_cons_self)
  obtain rfl : v = w := by
    obtain ⟨u', hu'⟩ := Connector.status_eq_registered.mp hat
    exact (Connector.registered.inj (hc.symm.trans hu')).1
  have hserves := h.serves c
  rw [hc] at hserves
  obtain ⟨hrelaying, hspoken⟩ := hserves
  refine h.of_other ht hsilent c ?_ fun c' hne => ⟨Function.update_of_ne hne .., fun v' => ?_⟩
  · change Serves _ c _ (Function.update s.connector c (.registered v u') c)
    rw [Function.update_self]
    refine ⟨?_, fun i => ?_⟩
    · have hpending : s.pending v c = x :: cs.filterMap (Call.on c) := by
        simp [State.pending, hpc, Pc.calls, Call.on]
      simp only [hpending] at hrelaying
      simp only [State.pending, State.goto_pc_self]
      exact hstep _ hrelaying
    · rw [hsaid, spoken_of_silent (hsilent c)]
      exact hspoken i
  · refine pending_goto (s := s.setConnector c _) ?_ v'
    simp [State.pending, State.setConnector, hpc, Pc.calls, Call.on, Ne.symm hne]

theorem select (h : Serving past s) {ks : List Key} (hpc : s.pc w = .select)
    (hnodup : (ks.map Key.channel).Nodup) (hks : ∀ k ∈ ks, s.Selectable w k)
    (ht : Placed (s.goto w (.process (ks.flatMap Key.calls)))) :
    Serving (past ++ [.select w (some ks)]) (s.goto w (.process (ks.flatMap Key.calls))) := by
  refine ⟨ht, fun c => ?_⟩
  have hserves := h.serves c
  by_cases hc : ∃ u, s.connector c = .registered w u
  · obtain ⟨u, hc⟩ := hc
    change Serves _ c _ (s.connector c)
    rw [hc] at hserves ⊢
    obtain ⟨hrelaying, hspoken⟩ := hserves
    refine ⟨?_, fun i => (hspoken i).trans (spoken_of_silent fun _ => rfl).symm⟩
    have hnil : s.pending w c = [] := by simp [State.pending, hpc, Pc.calls]
    simp only [hnil] at hrelaying
    simp only [State.pending, State.goto_pc_self]
    exact relaying_select hrelaying hnodup hks hc
  · refine hserves.keep (fun _ => rfl) fun v u hv => ?_
    have hvw : v ≠ w := by
      rintro rfl
      exact hc ⟨u, hv⟩
    rw [State.pending, s.goto_pc_of_ne _ hvw, State.pending]

theorem payload_of_ne {c c' : ℕ} {i : Side} {ev : Sock.Peer} (hne : c' ≠ c) (j : Side) :
    (Act.peer c i ev).payload c' j = [] := by
  simp [Act.payload, Ne.symm hne]

/-- A client sends before its connector is registered. -/
theorem peerClient (h : Serving past s) {ev : Sock.Peer} {x y : Sock}
    (hc : s.connector c = .constructed (some x)) (hy : x.peer ev = some y)
    (ht : Placed (s.setConnector c (.constructed (some y)))) :
    Serving (past ++ [.peer c .client ev]) (s.setConnector c (.constructed (some y))) := by
  refine ⟨ht, fun c' => ?_⟩
  by_cases hne : c' = c
  · subst hne
    have hserves := h.serves c'
    rw [hc] at hserves
    obtain ⟨hserver, hclient⟩ := hserves
    obtain ⟨hx, hinq⟩ := hclient x rfl
    obtain ⟨hy, hpayload⟩ := hx.peer hy
    change Serves _ c' _ (Function.update s.connector c' _ c')
    rw [Function.update_self]
    refine ⟨?_, fun z hz => ?_⟩
    · rw [spoken_append, hserver]
      simp [Act.payload]
    · obtain rfl := Option.some.inj hz
      refine ⟨hy, ?_⟩
      rw [hpayload, hinq, spoken_append]
      simp [Act.payload]
  · change Serves _ c' _ (Function.update s.connector c _ c')
    rw [Function.update_of_ne hne]
    exact (h.serves c').keep (payload_of_ne hne) fun _ _ _ => rfl

/-- The peer of a connector acts. -/
theorem peer (h : Serving past s) {i : Side} {ev : Sock.Peer} {u : NioProxy.State} {y : Sock}
    (hc : s.connector c = .registered w u) (hy : (u.chan i).peer ev = some y)
    (ht : Placed (s.setConnector c (.registered w (u.acted i ev y)))) :
    Serving (past ++ [.peer c i ev]) (s.setConnector c (.registered w (u.acted i ev y))) := by
  refine ⟨ht, fun c' => ?_⟩
  by_cases hne : c' = c
  · subst hne
    have hserves := h.serves c'
    rw [hc] at hserves
    obtain ⟨hrelaying, hspoken⟩ := hserves
    change Serves _ c' _ (Function.update s.connector c' _ c')
    rw [Function.update_self]
    refine ⟨hrelaying.acted hy, fun j => ?_⟩
    rw [spoken_append, ← hspoken j]
    rcases i.eq_or_eq_other j with rfl | rfl
    · simp [Act.payload, NioProxy.State.acted]
    · simp [Act.payload, NioProxy.State.acted]
  · change Serves _ c' _ (Function.update s.connector c _ c')
    rw [Function.update_of_ne hne]
    exact (h.serves c').keep (payload_of_ne hne) fun _ _ _ => rfl

/-- The worker has been interrupted: the connector is closed. -/
theorem relaying_interrupted {u : NioProxy.State} {x : Side × Op} {rest : List (Side × Op)}
    (h : Relaying { u with selected := x :: rest }) :
    Relaying { u.destroy x.1 .closedByInterrupt with selected := rest } := by
  have hflow (k : Side) :
      ({ { u with selected := x :: rest } with
        selected := rest, chan := Function.update u.chan x.1 (u.chan x.1) } : NioProxy.State).flow k
        = ({ u with selected := x :: rest } : NioProxy.State).flow k :=
    State.flow_throw rfl rfl k
  have hthrow := h.throw (e := .closedByInterrupt) h.nodup.tail hflow (by simp)
  simp only [Function.update_eq_self] at hthrow
  exact hthrow

/-- **The invariant of a proxy.** -/
theorem step (h : Serving past s) (hstep : (tcpProxy cfg).step s a = some t) :
    Serving (past ++ [a]) t := by
  have ht : Placed t := (h.placed.step hstep).placed
  cases trans_of_step hstep with
  | refused ha =>
    rcases ha with rfl | rfl <;> exact h.of_same ht (fun _ _ => rfl) rfl fun _ _ => rfl
  | start hmain hworkers => exact h.started
  | shutdown hmain hworkers => exact h.of_same ht (fun _ _ => rfl) rfl fun _ _ => rfl
  | interruptWorker hmain hi => exact h.of_same ht (fun _ _ => rfl) rfl fun _ _ => rfl
  | joined hmain hi => exact h.of_same ht (fun _ _ => rfl) rfl fun _ _ => rfl
  | join hmain hjoin => exact h.of_same ht (fun _ _ => rfl) rfl fun _ _ => rfl
  | drained hmain hqueue => exact h.of_same ht (fun _ _ => rfl) rfl fun _ _ => rfl
  | @drain x q hmain hqueue =>
    cases x with
    | acceptor g => exact h.of_same ht (fun _ _ => rfl) rfl fun _ _ => rfl
    | connector c =>
      refine h.of_other ht (fun _ _ => rfl) c ?_ fun c' hne =>
        ⟨Function.update_of_ne hne .., fun _ => rfl⟩
      change Serves _ c _ (Function.update s.connector c .destroyed c)
      rw [Function.update_self]
      trivial
  | interrupt => exact h.of_same ht (fun _ _ => rfl) rfl fun _ _ => rfl
  | @opening w ok hpc =>
    refine h.of_same ht (fun _ _ => rfl) rfl fun v c => pending_goto ?_ v
    cases ok <;> simp [State.pending, hpc, Pc.calls]
  | @loop w hpc =>
    refine h.of_same ht (fun _ _ => rfl) rfl fun v c => pending_goto (s := { s with .. }) ?_ v
    split_ifs <;> simp [State.pending, hpc, Pc.calls]
  | pollNull hpc hqueue =>
    exact h.of_same ht (fun _ _ => rfl) rfl fun v c =>
      pending_goto (by simp [State.pending, hpc, Pc.calls]) v
  | @poll w x q hpc hqueue =>
    exact h.of_same ht (fun _ _ => rfl) rfl fun v c =>
      pending_goto (s := s.setHandlers w.1 q)
        (by simp [State.pending, State.setHandlers, hpc, Pc.calls]) v
  | @bind w g room hpc hfree =>
    exact h.of_same ht (fun _ _ => rfl) rfl fun v c =>
      pending_goto (s := s.setAcceptor g _)
        (by simp [State.pending, State.setAcceptor, hpc, Pc.calls]) v
  | @bindThrows w g r p hpc hr =>
    refine h.of_same ht (fun _ _ => rfl) rfl fun v c =>
      pending_goto (s := s.setAcceptor g _) ?_ v
    obtain ⟨-, rfl⟩ | ⟨-, rfl⟩ := hr <;> simp [State.pending, State.setAcceptor, hpc, Pc.calls]
  | connect hpc hc => exact h.connect hpc hc ht
  | connectFails hpc hc => exact h.resolve ht hpc rfl trivial
  | connectThrows hpc hc => exact h.resolve ht hpc rfl trivial
  | selectThrows hpc =>
    exact h.of_same ht (fun _ _ => rfl) rfl fun v c =>
      pending_goto (by simp [State.pending, hpc, Pc.calls]) v
  | select hpc hnodup hks => exact h.select hpc hnodup hks ht
  | accept hpc hbound hr => exact h.accept hpc hr ht
  | @acceptInterrupted w g cs hpc hbound hinterrupt =>
    exact h.of_same ht (fun _ _ => rfl) rfl fun v c =>
      pending_goto (s := s.setAcceptor g _)
        (by simp [State.pending, State.setAcceptor, hpc, Pc.calls, Call.on, List.filterMap_cons]) v
  | acceptNothing hpc ha =>
    exact h.of_same ht (fun _ _ => rfl) rfl fun v c =>
      pending_goto (by simp [State.pending, hpc, Pc.calls, Call.on, List.filterMap_cons]) v
  | call hpc hc hcall =>
    have hsaid := process_said hcall
    exact h.call (fun _ _ => rfl) hpc hc ht hsaid fun rest hrelaying =>
      hrelaying.step (process_cons hcall)
  | callInterrupted hpc hc hinterrupt hopen =>
    exact h.call (fun _ _ => rfl) hpc hc ht rfl fun rest => relaying_interrupted
  | clear hpc =>
    exact h.of_same ht (fun _ _ => rfl) rfl fun v c =>
      pending_goto (by simp [State.pending, hpc, Pc.calls]) v
  | peerClient hc hpeer => exact h.peerClient hc hpeer ht
  | peer hc hpeer => exact h.peer hc hpeer ht

theorem run {as : List Act} (hrun : (tcpProxy cfg).run .new as = some s) : Serving as s :=
  Machine.labels_invariant_of_step (fun _ _ _ _ h hstep => h.step hstep) Serving.new hrun

end Serving

/-- What a proxy has done with the streams of the two peers of a connector. What has been written to
one channel, what the buffer for it holds and what has arrived on the other one is a prefix of what
the peer of that one has sent, and all of it until the connector is closed; all of it has been
written if the connector has been closed at its end; and the operations that a worker has yet to
process for the connector find their buffer in the mode that is meant for them. -/
structure Served (as : List Act) (s : State) (c : ℕ) (w : Worker) (u : NioProxy.State) : Prop where
  stream : ∀ i, u.flow i <+: spoken c i as
  whole : u.closed = none → ∀ i, u.flow i = spoken c i as
  complete : ∀ i, u.closed = some (i, .closedChannel) →
    (u.chan i).fin = true ∧ (u.chan i.other).sent = spoken c i as
  reads : u.closed = none → ∀ i, .connector c (i, .read) ∈ (s.pc w).calls →
    (u.buffer i.other).isReadyToWrite = true
  writes : u.closed = none → ∀ i, .connector c (i, .write) ∈ (s.pc w).calls →
    (u.buffer i).isReadyToRead = true

/-- **The streams of a proxy.** -/
theorem tcpProxy_relayed {cfg : TcpServerConfig} {s : State} {as : List Act} {c : ℕ} {w : Worker}
    {u : NioProxy.State} (hrun : (tcpProxy cfg).run .new as = some s)
    (hc : s.connector c = .registered w u) : Served as s c w u := by
  have hserves := (Serving.run hrun).serves c
  rw [hc] at hserves
  obtain ⟨hrelaying, hspoken⟩ := hserves
  have hrelayed := hrelaying.relayed
  have hmem {x : Side × Op} (hx : .connector c x ∈ (s.pc w).calls) : x ∈ s.pending w c :=
    List.mem_filterMap.mpr ⟨_, hx, by simp [Call.on]⟩
  refine ⟨fun i => ?_, fun hopen i => ?_, fun i hclosed => ?_, fun hopen i hi => ?_,
    fun hopen i hi => ?_⟩
  · rw [← hspoken i]
    exact hrelayed.stream i
  · rw [← hspoken i]
    exact hrelayed.whole hopen i
  · obtain ⟨hsent, hfin⟩ := hrelaying.complete i hclosed
    exact ⟨hfin, hsent.trans (hspoken i)⟩
  · exact hrelayed.reads hopen i (hmem hi)
  · exact hrelayed.writes hopen i (hmem hi)

/-- The first connection of a pair of workers. -/
theorem tcpProxy_relayed_pair : ∃ s u, (tcpProxy pair).run .new (accepts ++ serves) = some s ∧
    s.connector 0 = .registered (1, 1) u ∧ Served (accepts ++ serves) s 0 (1, 1) u := by
  have hrun : ((tcpProxy pair).run .new (accepts ++ serves)).any (fun s =>
      decide (s.At (.connector 0) (.selector (1, 1)))) = true := by decide
  obtain ⟨s, hs, hat⟩ := (Option.any_eq_true ..).mp hrun
  obtain ⟨u, hu⟩ := Connector.status_eq_registered.mp (of_decide_eq_true hat)
  exact ⟨s, u, hs, hu, tcpProxy_relayed hs hu⟩

end Parikshan.NioProxy.Server
