import Parikshan.Duplicator.Isolation
import Parikshan.Posix.Dataflow

/-!
# The debug window

In asynchronous mode what `T1` receives from the client goes to production at once and, chunk by
chunk, into the pipe, from which `T3` sends it to the duplicate. While production and the
duplicate keep their connections open, what the duplicate has been sent, followed by what is in
`T3`'s hands and in the pipe, is exactly what `T1` managed to write to the pipe. Up to the first
failed write the duplicate therefore sees a prefix of what production sees.

## Main definitions

* `historyT1`: the ledger of the chunks that `T1` has received and tried to write in a run.
* `Window`: the invariant of the four byte streams.

## Main results

* `Window.step`: every step at which neither connection ends keeps the invariant.
* `debug_window`: the fidelity of the debug window in every reachable state.
-/

namespace Parikshan.Duplicator

open Posix

/-- The ledger of `T1` after a step. -/
def recordT1 (s : State) (a : Act) (l : Ledger) : Ledger :=
  match a with
  | .work .t1 c => (program true .t1).record s.hasRd s.world (s.proc .t1) c l
  | _ => l

/-- What `T1` has received and tried to write to the pipe in a run. -/
def historyT1 (w : World SockId Unit) (as : List Act) : Ledger :=
  (duplicator true).track recordT1 (handling true w) as {}

/-- The peer of a connection closes or resets it. -/
def Act.Closes (i : SockId) (a : Act) : Prop := a = .peer i .fin ∨ a = .peer i .reset

/-- The sockets that a worker touches. -/
def Tid.socks : Tid → Set SockId
  | .t1 => productionSocks
  | .t2 => productionSocks
  | .t3 => {.duplicate}
  | .t4 => {.duplicate}

theorem program_socks (t : Tid) : (program true t).Within t.socks := by
  cases t with
  | t1 => exact program_within .t1 true (Or.inl rfl)
  | t2 => exact program_within .t2 true (Or.inr rfl)
  | t3 => exact program_within_duplicate .t3 (by simp [Tid.Production])
  | t4 => exact program_within_duplicate .t4 (by simp [Tid.Production])

/-- What the streams of the client, production, the pipe and the duplicate have to do with each
other, for the processes `P` of the workers. -/
structure Streams (w : World SockId Unit) (P : Tid → Proc SockId Unit) (l : Ledger) : Prop where
  holds : ∀ t, (P t).HoldsSocks t.socks
  within : ∀ t, (P t).Within t.socks
  remote : (w.sock .remote).Live
  duplicate : (w.sock .duplicate).Live
  duplicateOpen : (w.sock .duplicate).shut = false
  /-- `T3` and `T4` stay in their loops -/
  reader : (P .t3).pc.inLoop = true
  dropper : (P .t4).pc.inLoop = true
  alive : (P .t1).pc ≠ .killed
  /-- `T1` is the first to shut down the production socket -/
  remoteOpen : (P .t1).pc.inLoop = true → (w.sock .remote).shut = false
  backward : (P .t1).pc.inLoop = true → ∀ ops, (P .t2).pc ≠ .cleanup ops
  accounted : Accounted (P .t1) l
  delivered : Delivered (w.sock .remote) (P .t1) l
  cut : (P .t3).pc.Cut
  drained : (w.sock .duplicate).sent ++ (P .t3).pc.unsent ++ (w.pipe ()).buf = l.kept.flatten

/-- The invariant of the debug window. -/
structure Window (s : State) (l : Ledger) : Prop where
  inherited : Inherited s
  streams : Streams s.world s.proc l

namespace Streams

variable {w w' : World SockId Unit} {P : Tid → Proc SockId Unit} {p' : Proc SockId Unit}
  {l : Ledger} {c : Choice} {hasRd hasWr : Unit → Bool}

/-- The streams when the workers start their loops. -/
theorem forked (hremote : (w.sock .remote).Fresh) (hduplicate : (w.sock .duplicate).Fresh)
    (hpipe : (w.pipe ()).buf = []) : Streams w (fun t => forked (program true t)) {} where
  holds _ _ _ _ := rfl
  within t ops h := by cases t <;> cases h
  remote := hremote.toLive
  duplicate := hduplicate.toLive
  duplicateOpen := hduplicate.shut
  reader := rfl
  dropper := rfl
  alive h := by cases h
  remoteOpen _ := hremote.shut
  backward _ ops h := by cases h
  accounted := .of_eq rfl
  delivered := .of_eq (fun _ _ h => by cases h) hremote.sent
  cut _ _ h := by cases h
  drained := by
    rw [hduplicate.sent, hpipe]
    rfl

/-- What a peer does that neither closes nor resets its connection. -/
theorem peer {i : SockId} {e : Sock.Peer} {x : Sock} (h : Streams w P l)
    (hremote : ¬ (Act.peer i e).Closes .remote) (hduplicate : ¬ (Act.peer i e).Closes .duplicate)
    (hx : (w.sock i).peer e = some x) : Streams (w.setSock i x) P l := by
  obtain ⟨hissued, hshut⟩ := Sock.peer_eq hx
  have hsent (j : SockId) : ((w.setSock i x).sock j).sent = (w.sock j).sent := by
    rw [World.setSock_sock]
    split_ifs with hj
    · rw [hj, Sock.sent, Sock.sent, hissued]
    · rfl
  have hshut' (j : SockId) : ((w.setSock i x).sock j).shut = (w.sock j).shut := by
    rw [World.setSock_sock]
    split_ifs with hj
    · rw [hj, hshut]
    · rfl
  have hlive (j : SockId) (hj : ¬ (Act.peer i e).Closes j) (hl : (w.sock j).Live) :
      ((w.setSock i x).sock j).Live := by
    rw [World.setSock_sock]
    split_ifs with hji
    · subst hji
      exact hl.peer (fun he => hj (Or.inl (he ▸ rfl))) (fun he => hj (Or.inr (he ▸ rfl))) hx
    · exact hl
  exact { h with
    remote := hlive _ hremote h.remote
    duplicate := hlive _ hduplicate h.duplicate
    duplicateOpen := (hshut' _).trans h.duplicateOpen
    remoteOpen := fun hin => (hshut' _).trans (h.remoteOpen hin)
    delivered := ⟨h.delivered.cut, by rw [hsent, h.delivered.sent]⟩
    drained := by rw [hsent, World.setSock_pipe, h.drained] }

theorem update_holds (h : Streams w P l) (t : Tid) (hp' : p'.HoldsSocks t.socks) (u : Tid) :
    (Function.update P t p' u).HoldsSocks u.socks := by
  rw [Function.update_apply]
  split_ifs with hut
  · exact hut ▸ hp'
  · exact h.holds u

theorem update_within (h : Streams w P l) (t : Tid) (hp' : p'.Within t.socks) (u : Tid) :
    (Function.update P t p' u).Within u.socks := by
  rw [Function.update_apply]
  split_ifs with hut
  · exact hut ▸ hp'
  · exact h.within u

/-- A worker exits after its loop. -/
theorem exit {t : Tid} (h : Streams w P l) (hpc : (P t).pc = .cleanup []) :
    Streams w (Function.update P t (Proc.release .exited)) l := by
  have hout (K : Set SockId) : (Proc.release .exited : Proc SockId Unit).HoldsSocks K :=
    fun hin => by cases hin
  have hdone (K : Set SockId) : (Proc.release .exited : Proc SockId Unit).Within K :=
    fun ops hops => by cases hops
  cases t with
  | t1 =>
    have hchunks := h.accounted.chunks h.alive
    have hsent := h.delivered.sent
    simp only [hpc, Pc.inHand, Pc.unsent, List.append_nil] at hchunks hsent
    exact { h with
      holds := h.update_holds _ (hout _)
      within := h.update_within _ (hdone _)
      alive := by simp
      remoteOpen := fun hin => by cases hin
      backward := fun hin => by cases hin
      accounted := .of_eq (by simpa [Pc.inHand] using hchunks)
      delivered := .of_eq (by simp) hsent }
  | t2 =>
    exact { h with
      holds := h.update_holds _ (hout _)
      within := h.update_within _ (hdone _)
      backward := by simp }
  | t3 => simpa [hpc, Pc.inLoop] using h.reader
  | t4 => simpa [hpc, Pc.inLoop] using h.dropper

/-- A step of `T1`, while it holds the read end of the pipe. -/
theorem step_t1 (h : Streams w P l) (hp : (P .t1).HoldsPipes)
    (hrd : (P .t1).pc.inLoop = true → hasRd () = true)
    (hstep : (program true .t1).step hasRd hasWr w (P .t1) c = some (w', p')) :
    Streams w' (Function.update P .t1 p') ((program true .t1).record hasRd w (P .t1) c l) := by
  have hp' := Loop.step_holdsSocks (h.holds .t1) hstep
  have hframe := Loop.step_within (program_socks .t1) (h.within .t1) hstep
  have hdup : w'.sock .duplicate = w.sock .duplicate :=
    hframe.2 _ (by simp [Tid.socks, productionSocks])
  have hin {pc : Pc SockId} (hpc : p'.pc = pc) (hpc' : pc.inLoop = true) :
      (P .t1).pc.inLoop = true := by
    by_contra hout
    have hended := (Loop.step_ended (by simpa using hout) hstep).1
    simp [hpc, hpc'] at hended
  have hopen (hin : (P .t1).pc.inLoop = true) : ¬ (w.sock .remote).Closed := by
    rintro (hs | hr)
    · simp [h.remoteOpen hin] at hs
    · simp [h.remote.rst] at hr
  have halive : p'.pc ≠ .killed := by
    intro hkilled
    cases hi : (P .t1).pc.inLoop with
    | false => exact (Loop.step_ended hi hstep).2 hkilled
    | true =>
      rcases Loop.step_leaves (program_socks .t1) hi (h.holds .t1) hp hstep with
        hl | ⟨-, ⟨d, hd, hc⟩ | ⟨q, -, hq⟩⟩ | ⟨hl, -⟩
      · simp [hkilled, Pc.inLoop] at hl
      · cases hd
        exact hopen hi hc
      · simp [hrd hi] at hq
      · simp [hkilled] at hl
  obtain ⟨bs, hkept, hpipe⟩ := Loop.step_tee (l := l) rfl rfl hstep
  exact {
    holds := h.update_holds _ hp'
    within := h.update_within _ hframe.1
    remote := Loop.step_live h.remote hstep
    duplicate := hdup ▸ h.duplicate
    duplicateOpen := hdup ▸ h.duplicateOpen
    reader := h.reader
    dropper := h.dropper
    alive := halive
    remoteOpen := by
      intro hpc
      have hi := hin rfl hpc
      by_contra hshut
      rcases Loop.step_shut hstep (by simpa using hshut) with hs | ⟨ops, hops⟩
      · simp [h.remoteOpen hi] at hs
      · simp [hops, Pc.inLoop] at hi
    backward := fun hpc => h.backward (hin rfl hpc)
    accounted := Loop.step_accounted rfl rfl rfl h.accounted hstep
    delivered := Loop.step_delivered rfl rfl (by decide) ((program_socks .t1).dest _ rfl)
      (h.holds .t1) hopen h.delivered hstep
    cut := h.cut
    drained := by
      rw [hdup, hpipe, hkept, ← h.drained]
      simp }

/-- A step of `T2`, which sends to the client. -/
theorem step_t2 (h : Streams w P l) (hp : (P .t2).HoldsPipes)
    (hstep : (program true .t2).step hasRd hasWr w (P .t2) c = some (w', p')) :
    Streams w' (Function.update P .t2 p') l := by
  have hp' := Loop.step_holdsSocks (h.holds .t2) hstep
  have hframe := Loop.step_within (program_socks .t2) (h.within .t2) hstep
  have hdup : w'.sock .duplicate = w.sock .duplicate :=
    hframe.2 _ (by simp [Tid.socks, productionSocks])
  have hremote : (w'.sock .remote).sent = (w.sock .remote).sent :=
    Loop.step_sent (by simp [program, forwardData]) hstep
  have hpipe : w'.pipe () = w.pipe () :=
    Loop.step_pipe (by simp [program, forwardData]) (by simp [program, forwardData]) hstep
  exact { h with
    holds := h.update_holds _ hp'
    within := h.update_within _ hframe.1
    remote := Loop.step_live h.remote hstep
    duplicate := hdup ▸ h.duplicate
    duplicateOpen := hdup ▸ h.duplicateOpen
    remoteOpen := by
      intro hpc
      by_contra hshut
      rcases Loop.step_shut hstep (by simpa using hshut) with hs | ⟨ops, hops⟩
      · have hopen := h.remoteOpen hpc
        simp [hopen] at hs
      · exact h.backward hpc _ hops
    backward := by
      intro hpc ops hops
      rw [Function.update_self] at hops
      cases hi : (P .t2).pc.inLoop with
      | false =>
        obtain ⟨op, ops', hpc2, -⟩ := Loop.step_cleanup hi hstep
        exact h.backward hpc _ hpc2
      | true =>
        rcases Loop.step_leaves (program_socks .t2) hi (h.holds .t2) hp hstep with
          hl | ⟨hl, -⟩ | ⟨-, ⟨i, hi, hs⟩ | ⟨q, hq, -⟩⟩
        · simp [hops, Pc.inLoop] at hl
        · simp [hops] at hl
        · cases hi
          have hopen := h.remoteOpen hpc
          simp [hs h.remote] at hopen
        · simp [program, forwardData] at hq
    delivered := ⟨h.delivered.cut, by rw [hremote]; exact h.delivered.sent⟩
    drained := by
      rw [hdup, hpipe]
      exact h.drained }

/-- A step of `T3`, while it holds both ends of the pipe. -/
theorem step_t3 (h : Streams w P l) (hp : (P .t3).HoldsPipes) (hwr : hasWr () = true)
    (hstep : (program true .t3).step hasRd hasWr w (P .t3) c = some (w', p')) :
    Streams w' (Function.update P .t3 p') l := by
  have hp' := Loop.step_holdsSocks (h.holds .t3) hstep
  have hframe := Loop.step_within (program_socks .t3) (h.within .t3) hstep
  have hremote : w'.sock .remote = w.sock .remote := hframe.2 _ (by simp [Tid.socks])
  have hopen : ¬ (w.sock .duplicate).Closed := by
    rintro (hs | hr)
    · simp [h.duplicateOpen] at hs
    · simp [h.duplicate.rst] at hr
  have hin : p'.pc.inLoop = true := by
    rcases Loop.step_leaves (program_socks .t3) h.reader (h.holds .t3) hp hstep with
      hl | ⟨-, ⟨d, hd, hc⟩ | ⟨q, hq, -⟩⟩ | ⟨-, ⟨i, hi, -⟩ | ⟨q, -, hq⟩⟩
    · exact hl
    · cases hd
      exact absurd hc hopen
    · simp [program, forwardDataPipe] at hq
    · simp [program, forwardDataPipe] at hi
    · simp [hwr] at hq
  obtain ⟨hmoved, hcut⟩ :=
    Loop.step_drain rfl rfl rfl ((program_socks .t3).dest _ rfl) (h.holds .t3) hp hwr
      (fun _ => hopen) h.cut hstep
  exact { h with
    holds := h.update_holds _ hp'
    within := h.update_within _ hframe.1
    remote := hremote ▸ h.remote
    duplicate := Loop.step_live h.duplicate hstep
    duplicateOpen := by
      by_contra hshut
      rcases Loop.step_shut hstep (by simpa using hshut) with hs | ⟨ops, hops⟩
      · simp [h.duplicateOpen] at hs
      · have hreader := h.reader
        simp [hops, Pc.inLoop] at hreader
    reader := hin
    remoteOpen := fun hpc => hremote ▸ h.remoteOpen hpc
    delivered := hremote ▸ h.delivered
    cut := hcut
    drained := hmoved.trans h.drained }

/-- A step of `T4`, which only drops what the duplicate sends. -/
theorem step_t4 (h : Streams w P l) (hp : (P .t4).HoldsPipes)
    (hstep : (program true .t4).step hasRd hasWr w (P .t4) c = some (w', p')) :
    Streams w' (Function.update P .t4 p') l := by
  have hp' := Loop.step_holdsSocks (h.holds .t4) hstep
  have hframe := Loop.step_within (program_socks .t4) (h.within .t4) hstep
  have hremote : w'.sock .remote = w.sock .remote := hframe.2 _ (by simp [Tid.socks])
  have hsent : (w'.sock .duplicate).sent = (w.sock .duplicate).sent :=
    Loop.step_sent (by simp [program, receiveDataAsynch]) hstep
  have hpipe : w'.pipe () = w.pipe () :=
    Loop.step_pipe (by simp [program, receiveDataAsynch]) (by simp [program, receiveDataAsynch])
      hstep
  have hin : p'.pc.inLoop = true := by
    rcases Loop.step_leaves (program_socks .t4) h.dropper (h.holds .t4) hp hstep with
      hl | ⟨-, ⟨d, hd, -⟩ | ⟨q, hq, -⟩⟩ | ⟨-, ⟨i, hi, hs⟩ | ⟨q, hq, -⟩⟩
    · exact hl
    · simp [program, receiveDataAsynch] at hd
    · simp [program, receiveDataAsynch] at hq
    · cases hi
      have hshut := hs h.duplicate
      simp [h.duplicateOpen] at hshut
    · simp [program, receiveDataAsynch] at hq
  exact { h with
    holds := h.update_holds _ hp'
    within := h.update_within _ hframe.1
    remote := hremote ▸ h.remote
    duplicate := Loop.step_live h.duplicate hstep
    duplicateOpen := by
      by_contra hshut
      rcases Loop.step_shut hstep (by simpa using hshut) with hs | ⟨ops, hops⟩
      · simp [h.duplicateOpen] at hs
      · have hdropper := h.dropper
        simp [hops, Pc.inLoop] at hdropper
    dropper := hin
    remoteOpen := fun hpc => hremote ▸ h.remoteOpen hpc
    delivered := hremote ▸ h.delivered
    drained := by
      rw [hsent, hpipe]
      exact h.drained }

end Streams

namespace Window

variable {s s' : State} {l : Ledger}

/-- The invariant holds when the workers are about to be forked. -/
theorem handling {w : World SockId Unit} (hremote : (w.sock .remote).Fresh)
    (hduplicate : (w.sock .duplicate).Fresh) (hpipe : (w.pipe ()).buf = []) :
    Window (handling true w) {} :=
  ⟨.handling true w, .forked hremote hduplicate hpipe⟩

theorem step_handler (h : Window s l) (hstep : (duplicator true).step s .handler = some s') :
    Window s' l := by
  obtain ⟨hworld, hproc⟩ := h.inherited.proc_handler hstep
  exact ⟨h.inherited.step_handler hstep, by rw [hworld, hproc]; exact h.streams⟩

theorem step_peer {i : SockId} {e : Sock.Peer} (h : Window s l)
    (hremote : ¬ (Act.peer i e).Closes .remote) (hduplicate : ¬ (Act.peer i e).Closes .duplicate)
    (hstep : (duplicator true).step s (.peer i e) = some s') : Window s' l := by
  have hinh := h.inherited.step hstep
  obtain ⟨x, hx, rfl⟩ := Duplicator.step_peer hstep
  exact ⟨hinh, h.streams.peer hremote hduplicate hx⟩

theorem step_work {t : Tid} {c : Choice} (h : Window s l)
    (hstep : (duplicator true).step s (.work t c) = some s') :
    Window s' (recordT1 s (.work t c) l) := by
  have hinh := h.inherited.step hstep
  obtain ⟨p, w', p', hp, hwork, rfl⟩ := Duplicator.step_work hstep
  have hproc := State.proc_of_worker hp
  refine ⟨hinh, ?_⟩
  rw [State.setWorker_proc, State.setWorker_world]
  rcases workerStep_cases hwork with ⟨k, rfl, hpc, rfl, rfl⟩ | ⟨hpc, hL⟩
  · rw [← hproc] at hpc
    have hsame : recordT1 s (.work t (.run k)) l = l := by
      cases t with
      | t1 =>
        rw [recordT1]
        exact Loop.record_eq (by simp [hpc]) (by simp [hpc])
      | _ => rfl
    rw [hsame]
    exact h.streams.exit hpc
  · have hpipes := hproc ▸ h.inherited.worker t p hp
    rw [← hproc] at hL
    cases t with
    | t1 =>
      refine h.streams.step_t1 hpipes (fun hin => ?_) hL
      rw [hproc] at hin
      refine h.inherited.hasRd hp ?_ ?_ () <;> rintro hpc' <;> simp [hpc', Pc.inLoop] at hin
    | t2 => exact h.streams.step_t2 hpipes hL
    | t3 =>
      have hin := h.streams.reader
      rw [hproc] at hin
      refine h.streams.step_t3 hpipes (h.inherited.hasWr hp ?_ ?_ ()) hL <;> rintro hpc' <;>
        simp [hpc', Pc.inLoop] at hin
    | t4 => exact h.streams.step_t4 hpipes hL

/-- Every step at which production and the duplicate keep their connections open keeps the
invariant. -/
theorem step {a : Act} (h : Window s l) (hremote : ¬ a.Closes .remote)
    (hduplicate : ¬ a.Closes .duplicate) (hstep : (duplicator true).step s a = some s') :
    Window s' (recordT1 s a l) := by
  cases a with
  | peer i e => exact h.step_peer hremote hduplicate hstep
  | handler => exact h.step_handler hstep
  | work t c => exact h.step_work hstep

/-- Up to the first failed write on the pipe the duplicate sees a prefix of what production sees,
short of what is in hand and in the pipe. -/
theorem lag (h : Window s l) (hkept : ∀ x ∈ l.written, x.2 = true) :
    (s.world.sock .remote).sent ++ (s.proc .t1).pc.unsent =
        (s.world.sock .duplicate).sent ++ (s.proc .t3).pc.unsent ++ (s.world.pipe ()).buf ++
          (s.proc .t1).pc.inHand.flatten ∧
      (s.world.sock .duplicate).sent <+: (s.world.sock .remote).sent := by
  obtain ⟨hsent, hreplica⟩ :=
    h.streams.delivered.sent_eq h.streams.accounted h.streams.alive
  rw [← Ledger.kept_eq hkept, ← h.streams.drained] at hsent hreplica
  refine ⟨hsent, List.IsPrefix.trans ?_ hreplica⟩
  rw [List.append_assoc]
  exact List.prefix_append _ _

end Window

/-- **Fidelity of the debug window.** In every state that the asynchronous mode reaches while
production and the duplicate keep their connections open, whatever the stream of the client, the
chunks in which `T1` receives it, the capacity of the pipe, the counts of `T3`'s reads and the
order of all steps:

* what the duplicate has been sent, followed by what `T3` has in hand and what is in the pipe, is
  the concatenation of the chunks that `T1` wrote to the pipe, in order, each of them wholly
  present or wholly absent and none twice;
* what production has been sent is the concatenation of the chunks received, up to the part that
  `T1` has not sent of the chunk in its hand;
* while no write has failed, the duplicate has been sent a prefix of what production has been
  sent, short of what is in the pipe and in hand. -/
theorem debug_window {w : World SockId Unit} {as : List Act} {s : State}
    (hremote : (w.sock .remote).Fresh) (hduplicate : (w.sock .duplicate).Fresh)
    (hpipe : (w.pipe ()).buf = [])
    (hopen : ∀ a ∈ as, ¬ a.Closes .remote ∧ ¬ a.Closes .duplicate)
    (hrun : (duplicator true).run (handling true w) as = some s) :
    (s.world.sock .duplicate).sent ++ (s.proc .t3).pc.unsent ++ (s.world.pipe ()).buf =
        (historyT1 w as).kept.flatten ∧
      (historyT1 w as).kept.Sublist ((historyT1 w as).written.map Prod.fst) ∧
      (historyT1 w as).received = (historyT1 w as).written.map Prod.fst ++ (s.proc .t1).pc.inHand ∧
      (s.world.sock .remote).sent ++ (s.proc .t1).pc.unsent = (historyT1 w as).received.flatten ∧
      (s.proc .t1).pc.unsent <:+ (s.proc .t1).pc.inHand.flatten ∧
      ((∀ x ∈ (historyT1 w as).written, x.2 = true) →
        (s.world.sock .remote).sent ++ (s.proc .t1).pc.unsent =
            (s.world.sock .duplicate).sent ++ (s.proc .t3).pc.unsent ++ (s.world.pipe ()).buf ++
              (s.proc .t1).pc.inHand.flatten ∧
          (s.world.sock .duplicate).sent <+: (s.world.sock .remote).sent) := by
  have hwindow : Window s (historyT1 w as) := by
    refine Machine.Along.track_invariant (G := fun _ a => ¬ a.Closes .remote ∧
      ¬ a.Closes .duplicate) ?_ (Machine.along_of_forall_mem hopen _)
      (.handling hremote hduplicate hpipe) hrun
    exact fun s a t h hs ha hstep => hs.step ha.1 ha.2 hstep
  exact ⟨hwindow.streams.drained, Ledger.kept_sublist _,
    hwindow.streams.accounted.chunks hwindow.streams.alive, hwindow.streams.delivered.sent,
    hwindow.streams.delivered.cut.unsent_suffix, hwindow.lag⟩

/-- Three chunks of the client, of which the second finds no room in the pipe. -/
def secondWriteFails : List Act :=
  [.handler, .work .t1 (.run 1), .work .t1 (.run 1), .work .t1 (.write true), .work .t1 (.run 1),
    .work .t1 (.run 1), .work .t1 (.write false), .handler, .handler, .work .t3 (.run 0),
    .work .t3 (.run 1), .peer .client (.deliver [3, 4]), .work .t1 (.run 2), .work .t1 (.run 1),
    .work .t3 (.run 1)]

theorem debug_window_second_write_fails :
    ∃ s, (duplicator true).run (handling true (twoBytesArrived 1)) secondWriteFails = some s ∧
      (s.world.sock .duplicate).sent ++ (s.proc .t3).pc.unsent ++ (s.world.pipe ()).buf =
        (historyT1 (twoBytesArrived 1) secondWriteFails).kept.flatten ∧
      (s.world.sock .remote).sent ++ (s.proc .t1).pc.unsent =
        (historyT1 (twoBytesArrived 1) secondWriteFails).received.flatten := by
  obtain ⟨s, hs⟩ := Option.isSome_iff_exists.mp (by decide :
    ((duplicator true).run (handling true (twoBytesArrived 1)) secondWriteFails).isSome)
  have hopen : ∀ a ∈ secondWriteFails, ¬ a.Closes .remote ∧ ¬ a.Closes .duplicate := by
    simp [secondWriteFails, Act.Closes]
  obtain ⟨hdrained, -, -, hsent, -⟩ :=
    debug_window ⟨⟨rfl, rfl, rfl⟩, rfl, rfl⟩ ⟨⟨rfl, rfl, rfl⟩, rfl, rfl⟩ rfl hopen hs
  exact ⟨s, hs, hdrained, hsent⟩

end Parikshan.Duplicator
