import Parikshan.NioProxy.Connector
import Parikshan.Posix.Relay

/-!
# A connector relays

What a connector has written to one channel, what the buffer for it holds and what has arrived on
the other channel and not been read is what the peer of the other channel has sent. This is so
because each buffer is used in the mode that is meant for the call: an operation for which a key is
returned by the selector is one in which the connector was interested, and nothing but this
operation changes the mode on which its interest rested.

The end of a stream closes both channels. It is read into an empty buffer, so that all of the stream
has been written on by then; what the other peer sends is cut off.

## Main definitions

* `Relaying`: the invariant.
* `Relayed`: what it says about the streams.
* `Idle`: the selector has no key to return.

## Main results

* `connector_relayed`: the streams in every run.
* `connector_complete`: a stream that has ended has been written on.
* `connector_idle`: what is left undone when the selector has no key to return.
-/

namespace Parikshan.NioProxy

open Posix

/-- What is under way from one end to the other, with what has been written on: the bytes that have
been sent on the other channel, those in the buffer for it, and those that have arrived. -/
def State.flow (s : State) (i : Side) : List Byte :=
  (s.chan i.other).sent ++ (s.buffer i.other).held ++ (s.chan i).inq

/-- A reset has left an error, or it has come after the end of the stream. -/
def Pending (x : Sock) : Prop := x.rst = true → x.err = true ∨ x.fin = true

/-- A channel that its connector has neither written to nor closed. -/
structure Untouched (x : Sock) : Prop where
  shut : x.shut = false
  sent : x.sent = []
  pending : Pending x

/-- A reset leaves an error for the next call. -/
theorem Pending.peer {x y : Sock} {ev : Sock.Peer} (hx : Pending x) (h : x.peer ev = some y) :
    Pending y := by
  intro hy
  by_cases hfin : ev = .fin
  · subst hfin
    simp only [Sock.peer] at h
    split_ifs at h
    obtain rfl := Option.some.inj h
    exact Or.inr rfl
  rw [(Sock.peer_side h).1 hfin]
  by_cases hreset : ev = .reset
  · subst hreset
    simp only [Sock.peer] at h
    split_ifs at h
    obtain rfl := Option.some.inj h
    cases hended : x.fin with
    | false => exact Or.inl (by simp)
    | true => exact Or.inr rfl
  · obtain ⟨hrst, herr⟩ := (Sock.peer_side h).2 hreset
    rw [herr]
    exact hx (hrst ▸ hy)

theorem Untouched.peer {x y : Sock} {ev : Sock.Peer} (hx : Untouched x) (h : x.peer ev = some y) :
    Untouched y ∧ y.inq = x.inq ++ ev.payload := by
  refine ⟨⟨(Sock.peer_eq h).2.trans hx.shut, ?_, hx.pending.peer h⟩,
    (Sock.peer_payload h).1 hx.shut⟩
  rw [Sock.sent, (Sock.peer_eq h).1]
  exact hx.sent

theorem Untouched.of_fresh {x : Sock} (h : x.Fresh) : Untouched x where
  shut := h.shut
  sent := h.sent
  pending hrst := by
    rw [h.rst] at hrst
    cases hrst

/-- The invariant of a connector. -/
structure Relaying (s : State) : Prop where
  wellFormed : ∀ i, (s.buffer i).WellFormed
  interest : s.closed = none → s.interest = s.ops
  nodup : s.selected.Nodup
  reads : s.closed = none → ∀ i, (i, .read) ∈ s.selected →
    (s.buffer i.other).state = .readyToWrite
  writes : s.closed = none → ∀ i, (i, .write) ∈ s.selected → (s.buffer i).state = .readyToRead
  shut : ∀ i, (s.chan i).shut = s.closed.isSome
  pending : s.closed = none → ∀ i, Pending (s.chan i)
  stream : ∀ i, s.flow i <+: s.said i
  whole : s.closed = none → ∀ i, s.flow i = s.said i
  complete : ∀ i, s.closed = some (i, .closedChannel) →
    (s.chan i.other).sent = s.said i ∧ (s.chan i).fin = true

section Calls

variable {r : Ops} {i j : Side} {op : Op}

theorem Ops.mem_calls : (j, op) ∈ r.calls i ↔
    j = i ∧ (op = .read ∧ r.read = true ∨ op = .write ∧ r.write = true) := by
  cases op <;> simp [Ops.calls, List.mem_append, and_comm]

theorem Ops.nodup_calls (r : Ops) (i : Side) : (r.calls i).Nodup := by
  unfold Ops.calls
  split_ifs <;> simp

theorem Ops.nodup_append (r r' : Ops) (i : Side) : (r.calls i ++ r'.calls i.other).Nodup := by
  refine List.nodup_append.mpr ⟨r.nodup_calls i, r'.nodup_calls i.other, fun c hc d hd heq => ?_⟩
  subst heq
  exact absurd ((Ops.mem_calls.mp hc).1.symm.trans (Ops.mem_calls.mp hd).1) i.ne_other

end Calls

section State

variable {s : State} {i j : Side} {b : TcpProxyBuffer} {x y : Sock}

@[simp] theorem State.registerIf_chan (s : State) (c : Bool) : (s.registerIf c).chan = s.chan := by
  unfold State.registerIf
  split_ifs <;> rfl

@[simp] theorem State.registerIf_buffer (s : State) (c : Bool) :
    (s.registerIf c).buffer = s.buffer := by
  unfold State.registerIf
  split_ifs <;> rfl

@[simp] theorem State.registerIf_selected (s : State) (c : Bool) :
    (s.registerIf c).selected = s.selected := by
  unfold State.registerIf
  split_ifs <;> rfl

@[simp] theorem State.registerIf_closed (s : State) (c : Bool) :
    (s.registerIf c).closed = s.closed := by
  unfold State.registerIf
  split_ifs <;> rfl

@[simp] theorem State.registerIf_said (s : State) (c : Bool) : (s.registerIf c).said = s.said := by
  unfold State.registerIf
  split_ifs <;> rfl

/-- The interest sets are those of the buffers if `register` is called, or no mode has changed. -/
theorem State.registerIf_interest (s : State) (c : Bool) (h : c = false → s.interest = s.ops) :
    (s.registerIf c).interest = (s.registerIf c).ops := by
  cases c with
  | false => exact h rfl
  | true => rfl

/-- The interest sets depend on the modes only. -/
theorem State.ops_update (hstate : b.state = (s.buffer j).state) :
    ({ s with buffer := Function.update s.buffer j b } : State).ops = s.ops := by
  funext i
  have hsame (k : Side) : (Function.update s.buffer j b k).state = (s.buffer k).state := by
    by_cases hk : k = j
    · subst hk
      rw [Function.update_self, hstate]
    · rw [Function.update_of_ne hk]
  simp only [State.ops, TcpProxyBuffer.isReadyToWrite, TcpProxyBuffer.isReadyToRead, hsame]

@[simp] theorem State.registerIf_flow (s : State) (c : Bool) (i : Side) :
    (s.registerIf c).flow i = s.flow i := by
  simp [State.flow]

@[simp] theorem State.destroy_flow (s : State) (e : Exc) : (s.destroy i e).flow j = s.flow j := by
  simp only [State.flow, State.destroy, Sock.shutdown_sent]
  rfl

/-- Bytes move from a channel into the empty buffer for the other one. -/
theorem State.flow_read {cs : List (Side × Op)} (hheld : (s.buffer i.other).held = [])
    (hinq : (s.chan i).inq = b.held ++ y.inq) (hsent : y.sent = (s.chan i).sent) (j : Side) :
    ({ s with
        selected := cs
        chan := Function.update s.chan i y
        buffer := Function.update s.buffer i.other b } : State).flow j = s.flow j := by
  rcases i.eq_or_eq_other j with rfl | rfl
  · simp [State.flow, hheld, hinq]
  · simp [State.flow, hsent]

/-- Bytes move from the buffer for a channel into it. -/
theorem State.flow_write {cs : List (Side × Op)}
    (hsent : (s.chan i).sent ++ (s.buffer i).held = y.sent ++ b.held)
    (hinq : y.inq = (s.chan i).inq) (j : Side) :
    ({ s with
        selected := cs
        chan := Function.update s.chan i y
        buffer := Function.update s.buffer i b } : State).flow j = s.flow j := by
  rcases i.eq_or_eq_other j with rfl | rfl
  · simp [State.flow, hinq]
  · simp [State.flow, ← hsent]

/-- An exception moves no bytes. -/
theorem State.flow_throw {cs : List (Side × Op)} (hinq : y.inq = (s.chan i).inq)
    (hsent : y.sent = (s.chan i).sent) (j : Side) :
    ({ s with selected := cs, chan := Function.update s.chan i y } : State).flow j = s.flow j := by
  rcases i.eq_or_eq_other j with rfl | rfl
  · simp [State.flow, hinq]
  · simp [State.flow, hsent]

end State

namespace Relaying

variable {s t : State} {a : Act} {i : Side} {w : Side → Sock}

theorem registered (hw : ∀ i, Untouched (w i)) : Relaying (registered w) where
  wellFormed _ := .new
  interest _ := rfl
  nodup := .nil
  reads _ i h := by cases h
  writes _ i h := by cases h
  shut i := (hw i).shut
  pending _ i := (hw i).pending
  stream i := by
    rw [State.flow, NioProxy.registered, (hw i.other).sent]
    exact List.prefix_rfl
  whole _ i := by
    rw [State.flow, NioProxy.registered, (hw i.other).sent]
    rfl
  complete i h := by cases h

/-- A peer acts. -/
theorem acted (h : Relaying s) {ev : Sock.Peer} {x : Sock} (hx : (s.chan i).peer ev = some x) :
    Relaying (s.acted i ev x) := by
  obtain ⟨hopen, hclosed, hfin⟩ := Sock.peer_payload hx
  have hsent : x.sent = (s.chan i).sent := by rw [Sock.sent, (Sock.peer_eq hx).1, Sock.sent]
  have hother : (s.acted i ev x).chan i.other = s.chan i.other :=
    Function.update_of_ne i.other_ne ..
  have hself : (s.acted i ev x).chan i = x := Function.update_self ..
  have hflow : (s.acted i ev x).flow i.other = s.flow i.other := by
    rw [State.flow, State.flow, i.other_other, hself, hother, hsent]
    rfl
  have hsaid : (s.acted i ev x).said i.other = s.said i.other := Function.update_of_ne i.other_ne ..
  have hsaid' : (s.acted i ev x).said i = s.said i ++ ev.payload := Function.update_self ..
  have hshut : x.shut = (s.chan i).shut := (Sock.peer_eq hx).2
  refine ⟨h.wellFormed, h.interest, h.nodup, h.reads, h.writes, fun j => ?_, fun hnone j => ?_,
    fun j => ?_, fun hnone j => ?_, fun j hj => ?_⟩
  · rcases i.eq_or_eq_other j with rfl | rfl
    · rw [hself, hshut]
      exact h.shut j
    · rw [hother]
      exact h.shut _
  · rcases i.eq_or_eq_other j with rfl | rfl
    · rw [hself]
      exact (h.pending hnone j).peer hx
    · rw [hother]
      exact h.pending hnone _
  · rcases i.eq_or_eq_other j with rfl | rfl
    · rw [State.flow, hother, hself, hsaid']
      by_cases hs : (s.chan j).shut = true
      · rw [hclosed hs]
        exact (h.stream j).trans (List.prefix_append _ _)
      · rw [hopen (Bool.eq_false_iff.mpr hs), ← List.append_assoc]
        have hnone : s.closed = none := by
          rw [h.shut j] at hs
          simpa using hs
        rw [← h.whole hnone j]
        exact List.prefix_rfl
    · rw [hflow, hsaid]
      exact h.stream _
  · rcases i.eq_or_eq_other j with rfl | rfl
    · have hs : (s.chan j).shut = false := by
        rw [h.shut j, show s.closed = none from hnone]
        rfl
      rw [State.flow, hother, hself, hsaid', hopen hs, ← List.append_assoc, ← h.whole hnone j]
      rfl
    · rw [hflow, hsaid]
      exact h.whole hnone _
  · obtain ⟨hall, hend⟩ := h.complete j hj
    rcases i.eq_or_eq_other j with rfl | rfl
    · obtain ⟨hend', hnil⟩ := hfin hend
      rw [hother, hself, hsaid', hnil, List.append_nil]
      exact ⟨hall, hend'⟩
    · rw [i.other_other, hself, hother, hsaid, hsent]
      rw [i.other_other] at hall
      exact ⟨hall, hend⟩

/-- The selector returns the keys for which the connector is interested in something that they are
ready for. -/
theorem select (h : Relaying s) {r r' : Ops} (hr : s.Ready i r) (hr' : s.Ready i.other r') :
    Relaying { s with selected := r.calls i ++ r'.calls i.other } := by
  have hops : ∀ j op, (j, op) ∈ r.calls i ++ r'.calls i.other →
      (op = .read → (s.interest j).read = true) ∧ (op = .write → (s.interest j).write = true) := by
    intro j op hmem
    rcases List.mem_append.mp hmem with hmem | hmem
    · obtain ⟨rfl, ⟨rfl, hread⟩ | ⟨rfl, hwrite⟩⟩ := Ops.mem_calls.mp hmem
      · exact ⟨fun _ => (hr.1 hread).1, by simp⟩
      · exact ⟨by simp, fun _ => (hr.2 hwrite).1⟩
    · obtain ⟨rfl, ⟨rfl, hread⟩ | ⟨rfl, hwrite⟩⟩ := Ops.mem_calls.mp hmem
      · exact ⟨fun _ => (hr'.1 hread).1, by simp⟩
      · exact ⟨by simp, fun _ => (hr'.2 hwrite).1⟩
  refine ⟨h.wellFormed, h.interest, r.nodup_append r' i, fun hnone j hj => ?_, fun hnone j hj => ?_,
    h.shut, h.pending, h.stream, h.whole, h.complete⟩
  · have hread := (hops j _ hj).1 rfl
    rw [h.interest hnone] at hread
    exact TcpProxyBuffer.isReadyToWrite_iff.mp hread
  · have hwrite := (hops j _ hj).2 rfl
    rw [h.interest hnone] at hwrite
    exact TcpProxyBuffer.isReadyToRead_iff.mp hwrite

/-- An invalid key. -/
theorem skip (h : Relaying s) {c : Side × Op} {cs : List (Side × Op)}
    (hselected : s.selected = c :: cs) (hclosed : s.closed.isSome = true) :
    Relaying { s with selected := cs } := by
  have hnodup := h.nodup
  rw [hselected] at hnodup
  have hnone (hnone : s.closed = none) : False := by
    rw [hnone] at hclosed
    cases hclosed
  exact ⟨h.wellFormed, h.interest, hnodup.tail, fun hs => (hnone hs).elim,
    fun hs => (hnone hs).elim, h.shut, h.pending, h.stream, h.whole, h.complete⟩

/-- The operations that have yet to be processed after a read find the buffers in their mode. -/
theorem rest_of_read (h : Relaying s) {cs : List (Side × Op)} (hopen : s.closed = none)
    (hselected : s.selected = (i, .read) :: cs) (b : TcpProxyBuffer) :
    cs.Nodup ∧
      (∀ j, (j, .read) ∈ cs →
        (Function.update s.buffer i.other b j.other).state = .readyToWrite) ∧
      ∀ j, (j, .write) ∈ cs → (Function.update s.buffer i.other b j).state = .readyToRead := by
  have hnodup := h.nodup
  rw [hselected] at hnodup
  have hmode := h.reads hopen i (by rw [hselected]; exact List.mem_cons_self)
  refine ⟨hnodup.tail, fun j hj => ?_, fun j hj => ?_⟩
  · rcases i.eq_or_eq_other j with rfl | rfl
    · exact absurd hj (List.nodup_cons.mp hnodup).1
    · rw [i.other_other, Function.update_of_ne i.ne_other]
      have hmode' := h.reads hopen i.other (by rw [hselected]; exact List.mem_cons_of_mem _ hj)
      rwa [i.other_other] at hmode'
  · have hmode' := h.writes hopen j (by rw [hselected]; exact List.mem_cons_of_mem _ hj)
    rcases i.eq_or_eq_other j with rfl | rfl
    · rwa [Function.update_of_ne j.ne_other]
    · cases hmode.symm.trans hmode'

/-- And so they do after a write. -/
theorem rest_of_write (h : Relaying s) {cs : List (Side × Op)} (hopen : s.closed = none)
    (hselected : s.selected = (i, .write) :: cs) (b : TcpProxyBuffer) :
    cs.Nodup ∧
      (∀ j, (j, .read) ∈ cs → (Function.update s.buffer i b j.other).state = .readyToWrite) ∧
      ∀ j, (j, .write) ∈ cs → (Function.update s.buffer i b j).state = .readyToRead := by
  have hnodup := h.nodup
  rw [hselected] at hnodup
  have hmode := h.writes hopen i (by rw [hselected]; exact List.mem_cons_self)
  refine ⟨hnodup.tail, fun j hj => ?_, fun j hj => ?_⟩
  · have hmode' := h.reads hopen j (by rw [hselected]; exact List.mem_cons_of_mem _ hj)
    rcases i.eq_or_eq_other j with rfl | rfl
    · rwa [Function.update_of_ne j.other_ne]
    · rw [i.other_other] at hmode'
      cases hmode.symm.trans hmode'
  · rcases i.eq_or_eq_other j with rfl | rfl
    · exact absurd hj (List.nodup_cons.mp hnodup).1
    · rw [Function.update_of_ne i.other_ne]
      exact h.writes hopen i.other (by rw [hselected]; exact List.mem_cons_of_mem _ hj)

/-- A call that changes a channel and a buffer, and keeps what is under way. -/
theorem update (h : Relaying s) {j : Side} {cs : List (Side × Op)} {b : TcpProxyBuffer} {y : Sock}
    {c : Bool} (hopen : s.closed = none) (hb : b.WellFormed)
    (hc : c = false → b.state = (s.buffer j).state)
    (hrest : cs.Nodup ∧
      (∀ k, (k, .read) ∈ cs → (Function.update s.buffer j b k.other).state = .readyToWrite) ∧
      ∀ k, (k, .write) ∈ cs → (Function.update s.buffer j b k).state = .readyToRead)
    (hshut : y.shut = (s.chan i).shut) (hrst : y.rst = (s.chan i).rst)
    (herr : y.err = (s.chan i).err) (hfin : y.fin = (s.chan i).fin)
    (hflow : ∀ k, ({ s with
        selected := cs
        chan := Function.update s.chan i y
        buffer := Function.update s.buffer j b } : State).flow k = s.flow k) :
    Relaying (({ s with
      selected := cs
      chan := Function.update s.chan i y
      buffer := Function.update s.buffer j b } : State).registerIf c) := by
  have hchan {P : Sock → Prop} (hP : ∀ k, P (s.chan k)) (hy : P (s.chan i) → P y) (k : Side) :
      P (Function.update s.chan i y k) := by
    by_cases hk : k = i
    · subst hk
      rw [Function.update_self]
      exact hy (hP k)
    · rw [Function.update_of_ne hk]
      exact hP k
  refine ⟨fun k => ?_, fun _ => State.registerIf_interest _ c fun hfalse => ?_, ?_, fun _ => ?_,
    fun _ => ?_, fun k => ?_, fun _ k => ?_, fun k => ?_, fun _ k => ?_, fun k hk => ?_⟩
  · rw [State.registerIf_buffer]
    change (Function.update s.buffer j b k).WellFormed
    by_cases hk : k = j
    · subst hk
      rw [Function.update_self]
      exact hb
    · rw [Function.update_of_ne hk]
      exact h.wellFormed k
  · exact (h.interest hopen).trans (State.ops_update (hc hfalse)).symm
  · rw [State.registerIf_selected]
    exact hrest.1
  · rw [State.registerIf_selected, State.registerIf_buffer]
    exact hrest.2.1
  · rw [State.registerIf_selected, State.registerIf_buffer]
    exact hrest.2.2
  · rw [State.registerIf_chan, State.registerIf_closed]
    exact hchan (P := fun x => x.shut = s.closed.isSome) h.shut (fun hs => hshut.trans hs) k
  · rw [State.registerIf_chan]
    refine hchan (P := Pending) (h.pending hopen) (fun hs => ?_) k
    rw [Pending, hrst, herr, hfin]
    exact hs
  · rw [State.registerIf_flow, hflow, State.registerIf_said]
    exact h.stream k
  · rw [State.registerIf_flow, hflow, State.registerIf_said]
    exact h.whole hopen k
  · rw [State.registerIf_closed] at hk
    cases hopen.symm.trans hk

/-- An exception closes both channels. -/
theorem throw (h : Relaying s) {cs : List (Side × Op)} {e : Exc} {y : Sock} (hnodup : cs.Nodup)
    (hflow : ∀ k,
      ({ s with selected := cs, chan := Function.update s.chan i y } : State).flow k = s.flow k)
    (hcomplete : e = .closedChannel → (s.chan i.other).sent = s.said i ∧ y.fin = true) :
    Relaying (({ s with selected := cs, chan := Function.update s.chan i y } : State).destroy i e)
    where
  wellFormed := h.wellFormed
  interest hs := by cases hs
  nodup := hnodup
  reads hs := by cases hs
  writes hs := by cases hs
  shut _ := rfl
  pending hs := by cases hs
  stream k := by
    rw [State.destroy_flow, hflow]
    exact h.stream k
  whole hs := by cases hs
  complete k hk := by
    obtain ⟨rfl, rfl⟩ := Prod.mk.inj (Option.some.inj hk)
    obtain ⟨hsent, hfin⟩ := hcomplete rfl
    refine ⟨?_, ?_⟩
    · simp only [State.destroy, Sock.shutdown_sent]
      rw [Function.update_of_ne i.other_ne]
      exact hsent
    · simp only [State.destroy]
      rw [Function.update_self]
      exact hfin

/-- **The invariant of a connector.** -/
theorem step (h : Relaying s) (hstep : connector.step s a = some t) : Relaying t := by
  cases trans_of_step hstep with
  | peer hx => exact h.acted hx
  | select hselected hopen hr hr' => exact h.select hr hr'
  | skip hselected hclosed => exact h.skip hselected hclosed
  | @read k i cs b y hselected hopen hcall =>
    have hmode := h.reads hopen i (by rw [hselected]; exact List.mem_cons_self)
    have hheld := (h.wellFormed i.other).held_eq_nil.mpr hmode
    obtain ⟨b', hr, hb, hinq, heq, -⟩ | ⟨e, hr, -⟩ :=
      TcpProxyBuffer.writeFrom_cases (h.wellFormed i.other) hmode hcall
    · obtain rfl := Except.ok.inj hr
      refine h.update hopen hb (fun hfalse => ?_) (h.rest_of_read hopen hselected b) (by rw [heq])
        (by rw [heq]) (by rw [heq]) (by rw [heq]) (State.flow_read hheld hinq (by rw [heq]; rfl))
      rw [hmode, ← TcpProxyBuffer.isReadyToWrite_iff, TcpProxyBuffer.isReadyToWrite_eq_not, hfalse]
      rfl
    · cases hr
  | @readThrows k i cs e y hselected hopen hcall =>
    have hmode := h.reads hopen i (by rw [hselected]; exact List.mem_cons_self)
    have hheld := (h.wellFormed i.other).held_eq_nil.mpr hmode
    have hnodup := h.nodup
    rw [hselected] at hnodup
    obtain ⟨b', hr, -⟩ | ⟨e', hr, hinq, -, heq, heof⟩ :=
      TcpProxyBuffer.writeFrom_cases (h.wellFormed i.other) hmode hcall
    · cases hr
    · obtain rfl := Except.error.inj hr
      refine h.throw hnodup.tail (State.flow_throw (by rw [heq]) (by rw [heq]; rfl))
        fun he => ⟨?_, ?_⟩
      · have hwhole := h.whole hopen i
        rwa [State.flow, hheld, hinq, List.append_nil, List.append_nil] at hwhole
      · -- neither a reset, whose error would be pending, nor this end has ended the stream
        rw [heq]
        obtain hfin | ⟨herr, hrst | hshut⟩ := heof he
        · exact hfin
        · rcases h.pending hopen i hrst with hpending | hfin
          · cases herr.symm.trans hpending
          · exact hfin
        · rw [h.shut i, hopen] at hshut
          cases hshut
  | @write k i cs b y hselected hopen hcall =>
    have hmode := h.writes hopen i (by rw [hselected]; exact List.mem_cons_self)
    obtain ⟨b', hr, hb, hsent, -, heq⟩ | ⟨hr, -⟩ :=
      TcpProxyBuffer.writeTo_cases (h.wellFormed i) hmode hcall
    · obtain rfl := Except.ok.inj hr
      refine h.update hopen hb (fun hfalse => ?_) (h.rest_of_write hopen hselected b) (by rw [heq])
        (by rw [heq]) (by rw [heq]) (by rw [heq]) (State.flow_write hsent (by rw [heq]))
      rw [TcpProxyBuffer.isReadyToWrite_eq_not, Bool.not_eq_false'] at hfalse
      rw [hmode, ← TcpProxyBuffer.isReadyToRead_iff, hfalse]
    · cases hr
  | @writeThrows k i cs e y hselected hopen hcall =>
    have hmode := h.writes hopen i (by rw [hselected]; exact List.mem_cons_self)
    have hnodup := h.nodup
    rw [hselected] at hnodup
    obtain ⟨b', hr, -⟩ | ⟨hr, -, heq⟩ :=
      TcpProxyBuffer.writeTo_cases (h.wellFormed i) hmode hcall
    · cases hr
    · obtain rfl := Except.error.inj hr
      exact h.throw hnodup.tail (State.flow_throw (by rw [heq]) (by rw [heq]; rfl))
        fun he => by cases he

theorem run {as : List Act} (h : Relaying s) (hrun : connector.run s as = some t) : Relaying t :=
  Machine.invariant_of_step (fun _ _ _ h hstep => h.step hstep) h hrun

end Relaying

/-! ### What the peers receive -/

/-- What a connector has done with the streams of the two peers: what has been written to a channel,
what the buffer for it holds and what has arrived on the other one is a prefix of what the peer of
the other one has sent, and all of it until the connector closes the channels; a buffer holds at
most one read; and the operations that the worker has yet to process find their buffer in the mode
that is meant for them, so that no byte is overwritten or sent twice. -/
structure Relayed (s : State) : Prop where
  stream : ∀ i, s.flow i <+: s.said i
  whole : s.closed = none → ∀ i, s.flow i = s.said i
  bounded : ∀ i, (s.buffer i).held.length ≤ bufferSize
  reads : s.closed = none → ∀ i, (i, .read) ∈ s.selected → (s.buffer i.other).isReadyToWrite = true
  writes : s.closed = none → ∀ i, (i, .write) ∈ s.selected → (s.buffer i).isReadyToRead = true
  interest : s.closed = none → ∀ i, s.interest i =
    { read := (s.buffer i.other).held = [], write := (s.buffer i).held ≠ [] }

theorem Relaying.relayed {s : State} (h : Relaying s) : Relayed s where
  stream := h.stream
  whole := h.whole
  bounded i := (h.wellFormed i).length_held
  reads hopen i hi := TcpProxyBuffer.isReadyToWrite_iff.mpr (h.reads hopen i hi)
  writes hopen i hi := TcpProxyBuffer.isReadyToRead_iff.mpr (h.writes hopen i hi)
  interest hopen i := by
    have hread : (s.buffer i.other).isReadyToWrite = decide ((s.buffer i.other).held = []) := by
      rw [TcpProxyBuffer.isReadyToWrite]
      exact decide_eq_decide.mpr (h.wellFormed i.other).held_eq_nil.symm
    have hwrite : (s.buffer i).isReadyToRead = decide ((s.buffer i).held ≠ []) := by
      rw [TcpProxyBuffer.isReadyToRead]
      exact decide_eq_decide.mpr (h.wellFormed i).held_ne_nil.symm
    rw [h.interest hopen, State.ops, hread, hwrite]

/-- **The streams of a connector.** -/
theorem connector_relayed {w : Side → Sock} {as : List Act} {s : State} (hw : ∀ i, (w i).Fresh)
    (hrun : connector.run (registered w) as = some s) : Relayed s :=
  ((Relaying.registered fun i => .of_fresh (hw i)).run hrun).relayed

/-- Two open connections. -/
def connected : Side → Sock := fun _ => { room := 8 }

theorem connected_fresh (i : Side) : (connected i).Fresh := ⟨⟨rfl, rfl, rfl⟩, rfl, rfl⟩

/-- The client's request is read, and written to the server in two pieces. -/
def request : List Act :=
  [.peer .client (.deliver [1, 2, 3]), .select .client ⟨true, false⟩ ⟨false, false⟩, .process 3,
    .select .server ⟨false, true⟩ ⟨false, false⟩, .process 2,
    .select .server ⟨false, true⟩ ⟨false, false⟩, .process 1]

theorem connector_relayed_request :
    ∃ s, connector.run (registered connected) request = some s ∧ Relayed s := by
  obtain ⟨s, hrun⟩ : ∃ s, connector.run (registered connected) request = some s :=
    Option.isSome_iff_exists.mp (by decide)
  exact ⟨s, hrun, connector_relayed connected_fresh hrun⟩

/-- **A stream that has ended has been written on.** When a connector has been destroyed because a
channel has reached the end of its stream, all that its peer has sent has been written to the other
channel, and both channels are closed. -/
theorem connector_complete {w : Side → Sock} {as : List Act} {s : State} {i : Side}
    (hw : ∀ i, (w i).Fresh) (hrun : connector.run (registered w) as = some s)
    (hclosed : s.closed = some (i, .closedChannel)) :
    (s.chan i).fin = true ∧ (s.chan i.other).sent = s.said i ∧ ∀ j, (s.chan j).shut = true := by
  have h := (Relaying.registered fun i => .of_fresh (hw i)).run hrun
  obtain ⟨hsent, hfin⟩ := h.complete i hclosed
  refine ⟨hfin, hsent, fun j => ?_⟩
  rw [h.shut j, hclosed]
  rfl

/-- The client ends its stream after the request, and the server's answer is not read any more. -/
def halfClosed : List Act :=
  request ++ [.peer .client .fin, .peer .server (.deliver [4]),
    .select .client ⟨true, false⟩ ⟨true, false⟩, .process 0, .process 1]

theorem connector_complete_halfClosed :
    ∃ s, connector.run (registered connected) halfClosed = some s ∧
      (s.chan .client).sent = [] ∧ s.said .server = [4] ∧
      (s.chan .client).fin = true ∧ (s.chan .server).sent = s.said .client ∧
        ∀ j, (s.chan j).shut = true := by
  have hrun : connector.run (registered connected) halfClosed = some _ := rfl
  exact ⟨_, hrun, rfl, rfl, connector_complete connected_fresh hrun rfl⟩

/-! ### When the selector has no key to return -/

/-- The worker has processed all operations, and the selector returns no key. -/
structure Idle (s : State) : Prop where
  selected : s.selected = []
  select : ∀ first r r', r.calls first ++ r'.calls first.other ≠ [] →
    connector.step s (.select first r r') = none

/-- A direction in which there is nothing to do: all that has been sent has been written on, and no
more has arrived; or the buffer holds bytes for which there is no room. -/
inductive Settled (s : State) (i : Side) : Prop
  | done (sent : (s.chan i.other).sent = s.said i) (silent : (s.chan i).Silent)
  | full (held : (s.buffer i.other).held ≠ []) (room : (s.chan i.other).room = 0)
      (connected : ¬ (s.chan i.other).Closed)

section Idle

variable {s : State} {i : Side}

/-- The selector would return a key that is ready for an operation in which the connector is
interested. -/
theorem Idle.not_ready (h : Idle s) (hopen : s.closed = none) {r : Ops}
    (hr : r.calls i ≠ []) : ¬ s.Ready i r := by
  intro hready
  have hnone := h.select i r ⟨false, false⟩ (fun hnil => hr (List.append_eq_nil_iff.mp hnil).1)
  refine absurd hnone ?_
  change s.select i r ⟨false, false⟩ ≠ none
  rw [State.select, if_pos ⟨h.selected, hopen, hready, by simp, by simp⟩]
  simp

theorem Idle.not_readable (h : Idle s) (hopen : s.closed = none)
    (hread : (s.interest i).read = true) : ¬ Nio.Readable (s.chan i) :=
  fun hx => h.not_ready hopen (i := i) (r := ⟨true, false⟩) (by simp [Ops.calls])
    ⟨fun _ => ⟨hread, hx⟩, by simp⟩

theorem Idle.not_writable (h : Idle s) (hopen : s.closed = none)
    (hwrite : (s.interest i).write = true) : ¬ Nio.Writable (s.chan i) :=
  fun hx => h.not_ready hopen (i := i) (r := ⟨false, true⟩) (by simp [Ops.calls])
    ⟨by simp, fun _ => ⟨hwrite, hx⟩⟩

end Idle

/-- **No wakeup is lost.** When the selector has no key to return for a connector that has not been
destroyed, then in each direction all that has been sent has been written on, or for the peer that
is to receive it there is less room than the selector reports as writable. -/
theorem connector_idle {w : Side → Sock} {as : List Act} {s : State} (hw : ∀ i, (w i).Fresh)
    (hrun : connector.run (registered w) as = some s) (hopen : s.closed = none) (hidle : Idle s)
    (i : Side) : Settled s i := by
  have h := (Relaying.registered fun i => .of_fresh (hw i)).run hrun
  have hrelayed := h.relayed
  by_cases hheld : (s.buffer i.other).held = []
  · have hreadable := hidle.not_readable (i := i) hopen
      (by rw [hrelayed.interest hopen]; simp [hheld])
    simp only [Nio.Readable, not_or, not_not, Bool.not_eq_true] at hreadable
    obtain ⟨hinq, herr, hfin, hrst, hshut⟩ := hreadable
    have hwhole := h.whole hopen i
    rw [State.flow, hheld, hinq, List.append_nil, List.append_nil] at hwhole
    exact .done hwhole ⟨⟨hfin, hrst, herr⟩, hinq, hshut⟩
  · have hwritable := hidle.not_writable (i := i.other) hopen
      (by rw [hrelayed.interest hopen]; simp [hheld])
    simp only [Nio.Writable, not_or] at hwritable
    obtain ⟨hroom, hrst, hshut⟩ := hwritable
    exact .full hheld (Nat.eq_zero_of_not_pos hroom) fun hclosed => hclosed.elim hshut hrst

/-- After the request there is nothing to do. -/
theorem connector_idle_request :
    ∃ s, connector.run (registered connected) request = some s ∧ Settled s .client := by
  have hrun : connector.run (registered connected) request = some _ := rfl
  refine ⟨_, hrun, connector_idle connected_fresh hrun rfl ⟨rfl, fun first r r' hne => ?_⟩ .client⟩
  obtain ⟨a, b⟩ := r
  obtain ⟨c, d⟩ := r'
  cases first <;> cases a <;> cases b <;> cases c <;> cases d <;>
    first | rfl | exact absurd rfl hne

end Parikshan.NioProxy
