import Parikshan.JavaProxy.Replica
import Parikshan.JavaProxy.Teardown

/-!
# The backlog at a clean close

When the client ends its stream, the worker that reads from it calls `register.kill()`, which
closes the socket of the replica while bytes for it may still be in the pipe or in the hands of the
worker that reads from the pipe. Those bytes are lost; if there are none at that moment, the
replica has been sent in the end what the server has been sent.

What has been written to a socket counts as received here. When a socket is closed and a reply has
not been read from it, the kernel resets the connection and may drop what has been written last.

## Main definitions

* `Clean`: neither the server nor the replica ends or fails before its socket has been closed.
* `Terminal`: nothing more happens of itself.
* `Drained`: the replica's socket is closed when nothing is left for it.

## Main results

* `delivered_iff_drained`: the condition is exact for the clean runs that have come to an end.
-/

namespace Parikshan.JavaProxy

namespace State

variable (s : State)

/-- The socket that the call of a worker is on. -/
def call (w : Worker) : Option SockId :=
  (task true w).bind fun T =>
    match s.pc w with
    | .read =>
      match T.source with
      | .sock i => some i
      | .pis => none
    | .write _ _ => T.out
    | _ => none

/-- The network fails a call on a socket that has not been closed, or lets it time out. -/
def networkFails : Act → Bool
  | .work w .fail => (s.call w).any fun i => !(s.sock i).closed
  | .work _ .timeout => true
  | _ => false

/-- The server or the replica ends its stream before its socket has been closed. -/
def endsFirst : Act → Bool
  | .peer .outsocket .fin => !(s.sock .outsocket).closed
  | .peer .replicaSocket .fin => !(s.sock .replicaSocket).closed
  | _ => false

end State

/-- Neither the server nor the replica ends or fails before its socket has been closed, and the
client does not fail. -/
def Clean (s : State) (a : Act) : Prop := s.networkFails a = false ∧ s.endsFirst a = false

instance (s : State) (a : Act) : Decidable (Clean s a) := inferInstanceAs (Decidable (_ ∧ _))

/-- Nothing more happens unless a peer acts or the network fails. -/
def Terminal (cap : ℕ) (s : State) : Prop :=
  ∀ a t, (session true cap).step s a = some t → (∃ i e, a = .peer i e) ∨ s.networkFails a = true

/-- When the socket of the replica is closed, nothing for it is in the pipe or in the hands of the
worker that reads from the pipe. -/
def Drained (s : State) : Act → Prop
  | .work w (.run _) => ∀ ops, s.pc w = .kill (.close .replicaSocket :: ops) →
      (s.sock .replicaSocket).closed = false → s.pipe = [] ∧ (s.pc .pipeToSock).unsent = []
  | _ => True

/-! ### Calls in progress -/

/-- A worker writes and puts something as long as it does. -/
structure Placed (s : State) : Prop where
  write : ∀ w buf rest, s.pc w = .write buf rest →
    buf ≠ [] ∧ rest ≠ [] ∧ ∃ T i, task true w = some T ∧ T.out = some i
  pipe : ∀ w rest, s.pc w = .pipe rest → rest ≠ [] ∧ ∃ T, task true w = some T ∧ T.pos = true

section Placed

variable {cap : ℕ} {s t : State} {w : Worker} {c : Choice}

theorem Placed.registered : Placed (registered true) :=
  ⟨fun _ _ _ h => (by cases h), fun _ _ h => (by cases h)⟩

theorem Placed.goto (hs : Placed s) {pc : Pc} (hpc : ∀ w', t.pc w' = (s.goto w pc).pc w')
    (hwrite : ∀ buf rest, pc = .write buf rest →
      buf ≠ [] ∧ rest ≠ [] ∧ ∃ T i, task true w = some T ∧ T.out = some i)
    (hpipe : ∀ rest, pc = .pipe rest → rest ≠ [] ∧ ∃ T, task true w = some T ∧ T.pos = true) :
    Placed t := by
  refine ⟨fun w' buf rest h => ?_, fun w' rest h => ?_⟩ <;> rw [hpc] at h <;>
    by_cases hw : w' = w
  · subst hw
    exact hwrite buf rest (by simpa using h)
  · exact hs.write w' buf rest (by rwa [State.goto_pc_of_ne s _ hw] at h)
  · subst hw
    exact hpipe rest (by simpa using h)
  · exact hs.pipe w' rest (by rwa [State.goto_pc_of_ne s _ hw] at h)

theorem take_ne_nil {l : List Byte} {k : ℕ} (hpos : 0 < k) (hle : k ≤ l.length) :
    l.take k ≠ [] := by
  intro hnil
  have hlen := congrArg List.length hnil
  simp only [List.length_take, List.length_nil] at hlen
  omega

theorem Placed.work (hs : Placed s) (h : s.Trans true cap w c t) : Placed t := by
  have hread {T : Task} {bs : List Byte} (hT : task true w = some T) (hbs : bs ≠ []) :
      (∀ buf rest, T.afterRead bs = .write buf rest →
        buf ≠ [] ∧ rest ≠ [] ∧ ∃ T i, task true w = some T ∧ T.out = some i) ∧
      ∀ rest, T.afterRead bs ≠ .pipe rest := by
    cases hout : T.out with
    | none => simp [Task.afterRead, hout]
    | some i =>
      refine ⟨fun buf rest h => ?_, by simp [Task.afterRead, hout]⟩
      obtain ⟨rfl, rfl⟩ := by simpa [Task.afterRead, hout] using h
      exact ⟨hbs, hbs, T, i, hT, hout⟩
  cases h with
  | read => exact hs.goto (fun _ => rfl) (by simp) (by simp)
  | recv hT hpc hsrc hopen hpos hle =>
    obtain ⟨hwrite, hpipe⟩ := hread hT (take_ne_nil hpos hle)
    exact hs.goto (fun _ => rfl) hwrite fun rest h => absurd h (hpipe rest)
  | take hT hpc hsrc hpos hle =>
    obtain ⟨hwrite, hpipe⟩ := hread hT (take_ne_nil hpos hle)
    exact hs.goto (fun _ => rfl) hwrite fun rest h => absurd h (hpipe rest)
  | @send T i k buf rest hT hpc hout =>
    have hbuf := (hs.write w buf rest hpc).1
    refine hs.goto (fun _ => rfl) (fun buf' rest' h => ?_) fun rest' h => ?_
    · split_ifs at h with hk
      · unfold Task.afterWrite at h
        split_ifs at h
      · obtain ⟨rfl, rfl⟩ := Pc.write.inj h
        exact ⟨hbuf, hk, T, i, hT, hout⟩
    · split_ifs at h with hk
      unfold Task.afterWrite at h
      split_ifs at h with hpos
      obtain rfl := Pc.pipe.inj h
      exact ⟨hbuf, T, hT, hpos⟩
  | @put T k rest hT hpc htee =>
    refine hs.goto (fun _ => rfl) (fun buf' rest' h => ?_) fun rest' h => ?_
    · split_ifs at h
    · split_ifs at h with hk
      exact Pc.pipe.inj h ▸ ⟨hk, T, hT, htee⟩
  | quit => exact hs.goto (fun _ => rfl) (by simp) (by simp)
  | raise => exact hs.goto (fun _ => rfl) (by simp) (by simp)
  | stop => exact hs.goto (fun _ => rfl) (by simp) (by simp)
  | close => exact hs.goto (fun _ => rfl) (by simp) (by simp)
  | closeFails => exact hs.goto (fun _ => rfl) (by simp) (by simp)
  | killed => exact hs.goto (fun _ => rfl) (by simp) (by simp)

end Placed

/-! ### Clean runs -/

/-- A clean run: only the worker that reads from the client calls `register.kill()`, and until it
does all sockets are open; until the socket of the replica is closed nothing for it is lost. -/
structure Clearing (s : State) : Prop where
  fresh : Fresh true s
  closing : Closing true s
  placed : Placed s
  flag : ∀ w, s.isRunning w = true ∨ s.pc w = .returned
  killer : ∀ w ops, s.pc w = .kill ops → w = .clientToServer
  opened : (s.pc .clientToServer).inLoop = true → ∀ i, (s.sock i).closed = false
  fins : ∀ i, i ≠ .insocket → (s.sock i).fin = true → (s.sock i).closed = true
  reader : (s.sock .replicaSocket).closed = false → (s.pc .pipeToSock).inLoop = true ∨
    s.pipe = [] ∧ s.pc .clientToServer = .returned ∧ s.pc .pipeToSock = .returned
  balanced : (s.sock .replicaSocket).closed = false → Balanced s

section Clearing

variable {cap : ℕ} {s t : State} {w : Worker} {c : Choice} {i : SockId} {a : Act}

theorem Clearing.registered : Clearing (registered true) where
  fresh := .registered true
  closing := .registered true
  placed := .registered
  flag _ := Or.inl rfl
  killer _ _ h := by cases h
  opened _ _ := rfl
  fins _ _ h := by cases h
  reader _ := Or.inl rfl
  balanced _ := rfl

theorem Pc.of_not_inLoop {pc : Pc} (h : pc.inLoop = false) : pc.unput = [] ∧ pc.unsent = [] := by
  cases pc with
  | kill => exact ⟨rfl, rfl⟩
  | returned => exact ⟨rfl, rfl⟩
  | _ => cases h

/-- In a clean run only the end of the client's stream leads to `register.kill()`. -/
theorem Clearing.quits (hs : Clearing s) (hclean : s.networkFails (.work w c) = false)
    (h : s.Quits true w c) : w = .clientToServer ∧ s.pc .clientToServer = .read := by
  cases h with
  | stopped hpc hflag =>
    rcases hs.flag w with hup | hreturned
    · simp [hflag] at hup
    · simp [hpc] at hreturned
  | @eof T i k hT hpc hsrc hopen hempty hfin =>
    have hi : i = .insocket := by
      by_contra hne
      simp [hs.fins i hne hfin] at hopen
    subst hi
    have hw : w = .clientToServer := by
      by_contra hne
      exact (task_of_ne_clientToServer hT hne).1 hsrc
    subst hw
    exact ⟨rfl, hpc⟩
  | readTimeout => cases hclean
  | writeTimeout => cases hclean

/-- In a clean run calls fail on closed sockets only, and the reader of the pipe may find the
writer dead. -/
theorem Clearing.raises (hs : Clearing s) (hclean : s.networkFails (.work w c) = false)
    (h : s.Raises true w c) : w ≠ .clientToServer ∧
      (w = .pipeToSock → (s.sock .replicaSocket).closed = false →
        s.pc .pipeToSock = .read ∧ s.pipe = [] ∧ s.pc .clientToServer = .returned) := by
  have hcall (hin : (s.pc w).inLoop = true) {i : SockId} (hi : s.call w = some i)
      (hclosed : (s.sock i).closed = true) : w ≠ .clientToServer ∧
        (w = .pipeToSock → (s.sock .replicaSocket).closed = false → False) := by
    refine ⟨?_, ?_⟩
    · rintro rfl
      simp [hs.opened hin i] at hclosed
    · rintro rfl hopen
      have hreplica : i = .replicaSocket := by
        simp only [State.call, task, if_true, communicatePipeToSock, Option.bind_some] at hi
        cases hpc : s.pc .pipeToSock <;> simp [hpc] at hi
        exact hi.symm
      simp [hreplica, hopen] at hclosed
  have hfails {i : SockId} (hi : s.call w = some i) (hc : c = .fail) :
      (s.sock i).closed = true := by
    subst hc
    simpa [State.networkFails, hi] using hclean
  cases h with
  | @readClosed T i k hT hpc hsrc hclosed =>
    obtain ⟨hne, hopen⟩ := hcall (by rw [hpc]; rfl) (by simp [State.call, hT, hpc, hsrc]) hclosed
    exact ⟨hne, fun hw hr => (hopen hw hr).elim⟩
  | @readFails T i hT hpc hsrc =>
    have hi : s.call w = some i := by simp [State.call, hT, hpc, hsrc]
    obtain ⟨hne, hopen⟩ := hcall (by rw [hpc]; rfl) hi (hfails hi rfl)
    exact ⟨hne, fun hw hr => (hopen hw hr).elim⟩
  | @readDead T hT hpc hsrc hempty hwrote hdead =>
    refine ⟨?_, ?_⟩
    · rintro rfl
      simp [hpc] at hdead
    · rintro rfl -
      exact ⟨hpc, hempty, hdead⟩
  | @writeClosed T i k buf rest hT hpc hout hclosed =>
    obtain ⟨hne, hopen⟩ := hcall (by rw [hpc]; rfl) (by simp [State.call, hT, hpc, hout]) hclosed
    exact ⟨hne, fun hw hr => (hopen hw hr).elim⟩
  | @writeFails T i buf rest hT hpc hout =>
    have hi : s.call w = some i := by simp [State.call, hT, hpc, hout]
    obtain ⟨hne, hopen⟩ := hcall (by rw [hpc]; rfl) hi (hfails hi rfl)
    exact ⟨hne, fun hw hr => (hopen hw hr).elim⟩
  | @putDead T rest hT hpc htee hdead =>
    have hw : w = .clientToServer := by
      by_contra hne
      simp [(task_of_ne_clientToServer hT hne).2.2] at htee
    subst hw
    rcases hs.reader (hs.opened (by rw [hpc]; rfl) _) with hin | ⟨-, hreturned, -⟩
    · simp [hdead, Pc.inLoop] at hin
    · simp [hpc] at hreturned

/-- A worker keeps its flag, or it has returned. -/
theorem Clearing.flag_of_trans (hs : Clearing s) (h : s.Trans true cap w c t) (w' : Worker) :
    t.isRunning w' = true ∨ t.pc w' = .returned := by
  by_cases hw : w' = w
  · subst hw
    have hup := (hs.flag w').resolve_right h.pc_ne_returned
    cases h with
    | raise => exact Or.inr (by simp)
    | stop hpc => exact absurd hpc (hs.closing.not_stop _)
    | _ => exact Or.inl hup
  · rw [h.pc_of_ne hw]
    cases h with
    | raise =>
      simp only [State.raise, Function.update_of_ne hw]
      exact hs.flag w'
    | stop hpc => exact absurd hpc (hs.closing.not_stop _)
    | _ => exact hs.flag w'

/-- The part of a chunk that a worker has in hand as it leaves its loop in a clean run. -/
theorem Clearing.left (hs : Clearing s) (hclean : s.networkFails (.work w c) = false)
    (hopen : (s.sock .replicaSocket).closed = false) (h : s.Trans true cap w c t)
    (hw : w = .clientToServer ∨ w = .pipeToSock) (hin : (t.pc w).inLoop = false) :
    (s.pc w).unput = [] ∧ (s.pc w).unsent = [] := by
  obtain ⟨hq, -⟩ | ⟨hr, -⟩ | ⟨ops, hpc⟩ := h.leaves hin
  · obtain ⟨rfl, hpc⟩ := hs.quits hclean hq
    simp [hpc, Pc.unput, Pc.unsent]
  · obtain ⟨hne, hdead⟩ := hs.raises hclean hr
    obtain rfl := hw.resolve_left hne
    simp [(hdead rfl hopen).1, Pc.unput, Pc.unsent]
  · exact Pc.of_not_inLoop (by rw [hpc]; rfl)

/-- The reader of the pipe stays in its loop, unless it finds the writer dead and the pipe
empty. -/
theorem Clearing.reader_of_trans (hs : Clearing s)
    (hclean : s.networkFails (.work w c) = false) (h : s.Trans true cap w c t)
    (hopen : (s.sock .replicaSocket).closed = false) : (t.pc .pipeToSock).inLoop = true ∨
      t.pipe = [] ∧ t.pc .clientToServer = .returned ∧ t.pc .pipeToSock = .returned := by
  rcases hs.reader hopen with hin | ⟨hempty, hwriter, hreader⟩
  · by_cases hw : .pipeToSock = w
    · subst hw
      by_cases hin' : (t.pc .pipeToSock).inLoop = true
      · exact Or.inl hin'
      · obtain ⟨hq, -⟩ | ⟨hr, rfl⟩ | ⟨ops, hpc⟩ := h.leaves (by simpa using hin')
        · cases (hs.quits hclean hq).1
        · obtain ⟨-, hempty, hwriter⟩ := (hs.raises hclean hr).2 rfl hopen
          exact Or.inr ⟨hempty, by rwa [State.raise_pc_of_ne _ (by simp)], by simp⟩
        · simp [hpc, Pc.inLoop] at hin
    · exact Or.inl (by rwa [h.pc_of_ne hw])
  · have hw₁ : w ≠ .clientToServer := by
      rintro rfl
      exact h.pc_ne_returned hwriter
    have hw₃ : w ≠ .pipeToSock := by
      rintro rfl
      exact h.pc_ne_returned hreader
    have hpipe : t.pipe = s.pipe := h.pipe_eq fun T hT =>
      ⟨(task_of_ne_pipeToSock hT hw₃).1, (task_of_ne_clientToServer hT hw₁).2.2⟩
    exact Or.inr ⟨by rw [hpipe, hempty], by rw [h.pc_of_ne hw₁.symm, hwriter],
      by rw [h.pc_of_ne hw₃.symm, hreader]⟩

/-- A step of a worker in a clean run. -/
theorem Clearing.work (hs : Clearing s) (hclean : s.networkFails (.work w c) = false)
    (h : (session true cap).step s (.work w c) = some t) : Clearing t := by
  have htrans := State.trans_of_work h
  have hopen {i : SockId} (hi : (t.sock i).closed = false) : (s.sock i).closed = false := by
    by_contra hclosed
    simp [(htrans.closed_iff i).mpr (Or.inl (by simpa using hclosed))] at hi
  refine
    { fresh := hs.fresh.step h
      closing := hs.closing.step h
      placed := hs.placed.work htrans
      flag := hs.flag_of_trans htrans
      killer := fun w' ops hpc => ?_
      opened := fun hin i => ?_
      fins := fun i hi hfin => ?_
      reader := fun hr => hs.reader_of_trans hclean htrans (hopen hr)
      balanced := fun hr => ?_ }
  · by_cases hw : w' = w
    · subst hw
      obtain ⟨hq, -⟩ | ⟨hr, rfl⟩ | ⟨ops₀, hpc₀⟩ := htrans.leaves (by rw [hpc]; rfl)
      · exact (hs.quits hclean hq).1
      · simp at hpc
      · exact hs.killer w' ops₀ hpc₀
    · exact hs.killer w' ops (htrans.pc_of_ne hw ▸ hpc)
  · have hin₀ := htrans.inLoop hin
    by_contra hclosed
    rcases (htrans.closed_iff i).mp (by simpa using hclosed) with hi | ⟨ops, hpc, -⟩
    · simp [hs.opened hin₀ i] at hi
    · obtain rfl := hs.killer w _ hpc
      simp [hpc, Pc.inLoop] at hin₀
  · rw [htrans.fin_eq] at hfin
    exact (htrans.closed_iff i).mpr (Or.inl (hs.fins i hi hfin))
  · have hkept (w' : Worker) (hw' : w' = .clientToServer ∨ w' = .pipeToSock) :
        (t.pc w').inLoop = true ∨ (s.pc w').unput = [] ∧ (s.pc w').unsent = [] := by
      by_cases hin : (t.pc w').inLoop = true
      · exact Or.inl hin
      · refine Or.inr ?_
        by_cases hw : w' = w
        · subst hw
          exact hs.left hclean (hopen hr) htrans hw' (by simpa using hin)
        · exact Pc.of_not_inLoop (by rw [← htrans.pc_of_ne hw]; simpa using hin)
    exact (flow_of_trans htrans ((hkept _ (Or.inr rfl)).imp_right And.right)).balanced
      (hs.balanced (hopen hr)) (hkept _ (Or.inl rfl))

/-- What a peer does in a clean run. -/
theorem Clearing.peer {e : Peer} (hs : Clearing s) (hclean : s.endsFirst (.peer i e) = false)
    (h : (session true cap).step s (.peer i e) = some t) : Clearing t := by
  have hflow := (flow_of_other hs.fresh (by simp) h).1
  have hfresh := hs.fresh.step h
  have hclosing := hs.closing.step h
  obtain ⟨x, hx, hsame, -, rfl⟩ := step_peer h
  refine
    { fresh := hfresh
      closing := hclosing
      placed := ⟨hs.placed.write, hs.placed.pipe⟩
      flag := hs.flag
      killer := hs.killer
      opened := fun hin j => (hsame j).trans (hs.opened hin j)
      fins := fun j hj hfin => ?_
      reader := fun hopen => hs.reader ((hsame _).symm.trans hopen)
      balanced := fun hopen => ?_ }
  · rw [hsame]
    by_cases hij : j = i
    · subst hij
      cases e with
      | deliver bs =>
        simp only [Socket.peer] at hx
        split_ifs at hx
        cases hx
        exact hs.fins j hj (by simpa using hfin)
      | fin => cases j <;> simp_all [State.endsFirst]
    · exact hs.fins j hj (by rwa [State.setSock_sock_of_ne s x hij] at hfin)
  · refine hflow.balanced (hs.balanced ((hsame _).symm.trans hopen)) ?_
    exact (Bool.eq_false_or_eq_true _).imp_right Pc.of_not_inLoop

/-- The start of a thread. -/
theorem Clearing.start (hs : Clearing s) (h : (session true cap).step s .start = some t) :
    Clearing t := by
  obtain ⟨hflow, -, -, hin⟩ := flow_of_other hs.fresh (by simp) h
  have hfresh := hs.fresh.step h
  have hclosing := hs.closing.step h
  obtain ⟨w, ws, hstarting, rfl⟩ := step_start h
  have hpc : s.pc w = .unstarted :=
    ((hs.fresh.mem_iff w).mp (hstarting ▸ List.mem_cons_self)).2
  have hgoto (w' : Worker) : ({ s.goto w .loop with starting := ws } : State).pc w' =
      (s.goto w .loop).pc w' := rfl
  have hother {w' : Worker} (hw : s.pc w' ≠ .unstarted) : (s.goto w .loop).pc w' = s.pc w' :=
    State.goto_pc_of_ne s _ fun h => hw (h ▸ hpc)
  refine
    { fresh := hfresh
      closing := hclosing
      placed := hs.placed.goto hgoto (by simp) (by simp)
      flag := fun w' => (hs.flag w').imp_right fun hret => ?_
      killer := fun w' ops hkill => ?_
      opened := fun hopen => hs.opened (hin _ ▸ hopen)
      fins := hs.fins
      reader := fun hopen =>
        (hs.reader hopen).imp (fun hr => (hin .pipeToSock).trans hr) fun hr => ?_
      balanced := fun hopen => ?_ }
  · exact (hother (by simp [hret])).trans hret
  · by_cases hw : w' = w
    · subst hw
      simp at hkill
    · exact hs.killer w' ops (State.goto_pc_of_ne s _ hw ▸ hkill)
  · exact ⟨hr.1, (hother (by simp [hr.2.1])).trans hr.2.1, (hother (by simp [hr.2.2])).trans hr.2.2⟩
  · refine hflow.balanced (hs.balanced hopen) ?_
    rw [hin]
    exact (Bool.eq_false_or_eq_true _).imp_right Pc.of_not_inLoop

/-- **The invariant of the clean runs.** -/
theorem Clearing.step (hs : Clearing s) (hclean : Clean s a)
    (h : (session true cap).step s a = some t) : Clearing t := by
  cases a with
  | peer i e => exact hs.peer hclean.2 h
  | start => exact hs.start h
  | work w c => exact hs.work hclean.1 h

/-! ### The backlog -/

/-- What has been written to the server grows only while the writer of the pipe is in its loop. -/
theorem State.Trans.toServer_eq (h : s.Trans true cap w c t)
    (hin : (t.pc .clientToServer).inLoop = false) : t.toServer = s.toServer := by
  by_cases hw : w = .clientToServer
  · subst hw
    exact (h.of_left hin).2 _
  · exact h.sent_eq fun T hT => (task_of_ne_clientToServer hT hw).2.1

/-- Once the socket of the replica is closed, nothing more is written to the server or to the
replica. -/
theorem Clearing.frozen (hs : Clearing s) (hclosed : (s.sock .replicaSocket).closed = true)
    (h : (session true cap).step s a = some t) : (t.sock .replicaSocket).closed = true ∧
      t.toServer = s.toServer ∧ t.toReplica = s.toReplica := by
  cases a with
  | peer i e =>
    obtain ⟨-, hserver, hreplica, -⟩ := flow_of_other hs.fresh (by simp) h
    obtain ⟨x, -, hsame, -, rfl⟩ := step_peer h
    exact ⟨(hsame _).trans hclosed, hserver, hreplica⟩
  | start =>
    obtain ⟨-, hserver, hreplica, -⟩ := flow_of_other hs.fresh (by simp) h
    obtain ⟨w, ws, -, rfl⟩ := step_start h
    exact ⟨hclosed, hserver, hreplica⟩
  | work w c =>
    have htrans := State.trans_of_work h
    refine ⟨(htrans.closed_iff _).mpr (Or.inl hclosed), htrans.toServer_eq ?_,
      htrans.sent_of_closed hclosed⟩
    by_contra hin
    simp [hs.opened (htrans.inLoop (by simpa using hin))] at hclosed

/-- The step that closes the socket of the replica. -/
theorem Clearing.closes (hs : Clearing s) (hopen : (s.sock .replicaSocket).closed = false)
    (h : (session true cap).step s a = some t) (hclosed : (t.sock .replicaSocket).closed = true) :
    ∃ k ops, a = .work .clientToServer (.run k) ∧
      s.pc .clientToServer = .kill (.close .replicaSocket :: ops) ∧
      t.toServer = s.toServer ∧ t.toReplica = s.toReplica ∧
      s.toReplica ++ (s.pc .pipeToSock).unsent ++ s.pipe = s.toServer := by
  cases a with
  | peer i e =>
    obtain ⟨x, -, hsame, -, rfl⟩ := step_peer h
    simp [hsame, hopen] at hclosed
  | start =>
    obtain ⟨w, ws, -, rfl⟩ := step_start h
    simp [hopen] at hclosed
  | work w c =>
    have htrans := State.trans_of_work h
    obtain ⟨ops, hpc, hpc'⟩ := ((htrans.closed_iff _).mp hclosed).resolve_left (by simp [hopen])
    have hrun : ∃ k, c = .run k := by
      obtain ⟨T, -, h⟩ := Option.bind_eq_some_iff.mp h
      cases c with
      | run k => exact ⟨k, rfl⟩
      | fail =>
        simp only [hpc, State.killStep, hopen, Bool.false_eq_true, if_false,
          Option.some.injEq] at h
        simp [← h] at hpc'
      | timeout => simp [hpc, State.killStep] at h
      | put k => simp [hpc, State.killStep] at h
    obtain ⟨k, rfl⟩ := hrun
    obtain rfl := hs.killer w _ hpc
    have hleft := htrans.of_left (by rw [hpc']; rfl)
    have hbalanced := hs.balanced hopen
    simp only [Balanced, State.mirrored, hpc, Pc.unput, Pc.unsent, List.append_nil] at hbalanced
    exact ⟨k, ops, rfl, hpc, hleft.2 _, hleft.2 _, hbalanced⟩

/-- Nothing that the server has received has been lost for the replica. -/
structure Delivering (s : State) : Prop where
  clearing : Clearing s
  delivered : (s.sock .replicaSocket).closed = true → s.toReplica = s.toServer

/-- A part of what the server has received is lost for the replica. -/
structure Lossy (s : State) : Prop where
  clearing : Clearing s
  closed : (s.sock .replicaSocket).closed = true
  lost : s.toReplica.length < s.toServer.length

theorem Delivering.step (hs : Delivering s) (hclean : Clean s a) (ha : Drained s a)
    (h : (session true cap).step s a = some t) : Delivering t := by
  refine ⟨hs.clearing.step hclean h, fun hclosed => ?_⟩
  by_cases hopen : (s.sock .replicaSocket).closed = true
  · obtain ⟨-, hserver, hreplica⟩ := hs.clearing.frozen hopen h
    rw [hserver, hreplica, hs.delivered hopen]
  · obtain ⟨k, ops, rfl, hpc, hserver, hreplica, hbalanced⟩ :=
      hs.clearing.closes (by simpa using hopen) h hclosed
    obtain ⟨hpipe, hunsent⟩ := ha ops hpc (by simpa using hopen)
    rw [hserver, hreplica, ← hbalanced, hpipe, hunsent, List.append_nil, List.append_nil]

/-- The socket of the replica is closed before its time. -/
theorem Delivering.lossy (hs : Delivering s) (hclean : Clean s a) (ha : ¬ Drained s a)
    (h : (session true cap).step s a = some t) : Lossy t := by
  have hclearing := hs.clearing.step hclean h
  cases a with
  | peer => exact absurd trivial ha
  | start => exact absurd trivial ha
  | work w c =>
    cases c with
    | run k =>
      simp only [Drained, not_forall] at ha
      obtain ⟨ops, hpc, hopen, hbacklog⟩ := ha
      have hclosed : (t.sock .replicaSocket).closed = true := by
        obtain ⟨T, -, h⟩ := Option.bind_eq_some_iff.mp h
        simp only [hpc, State.killStep, Option.some.injEq] at h
        simp [← h]
      obtain ⟨-, -, -, -, hserver, hreplica, hbalanced⟩ := hs.clearing.closes hopen h hclosed
      refine ⟨hclearing, hclosed, ?_⟩
      rw [hserver, hreplica, ← hbalanced, List.length_append, List.length_append]
      by_contra hlen
      refine hbacklog ⟨List.eq_nil_of_length_eq_zero ?_, List.eq_nil_of_length_eq_zero ?_⟩ <;>
        omega
    | put => exact absurd trivial ha
    | timeout => exact absurd trivial ha
    | fail => exact absurd trivial ha

theorem Lossy.step (hs : Lossy s) (hclean : Clean s a)
    (h : (session true cap).step s a = some t) : Lossy t := by
  obtain ⟨hclosed, hserver, hreplica⟩ := hs.clearing.frozen hs.closed h
  exact ⟨hs.clearing.step hclean h, hclosed, by rw [hserver, hreplica]; exact hs.lost⟩

/-! ### The end of a run -/

/-- Where nothing more happens, a step of a worker that the network does not fail is not
enabled. -/
theorem Terminal.work_eq_none (hend : Terminal cap s)
    (hclean : s.networkFails (.work w c) = false) : s.work true cap w c = none := by
  cases h : s.work true cap w c with
  | none => rfl
  | some t =>
    obtain ⟨i, e, ha⟩ | hfails := hend (.work w c) t h
    · cases ha
    · simp [hclean] at hfails

/-- Where nothing more happens, all threads have been started. -/
theorem Terminal.started (hend : Terminal cap s) (hfresh : Fresh true s) (w : Worker) :
    s.pc w ≠ .unstarted := by
  intro hpc
  cases hstarting : s.starting with
  | nil =>
    have hmem := (hfresh.mem_iff w).mpr ⟨by cases w <;> simp [threads], hpc⟩
    simp [hstarting] at hmem
  | cons v ws =>
    have hstart : (session true cap).step s .start =
        some { s.goto v .loop with starting := ws } := by
      simp only [session, State.start, hstarting]
    obtain ⟨i, e, ha⟩ | hfails := hend .start _ hstart
    · cases ha
    · cases hfails

/-- Where nothing more happens, the pipe is empty and its reader has nothing in hand. -/
theorem Clearing.reader_idle (hs : Clearing s) (hend : Terminal cap s)
    (hopen : (s.sock .replicaSocket).closed = false) :
    s.pipe = [] ∧ (s.pc .pipeToSock).unsent = [] := by
  cases hpc : s.pc .pipeToSock with
  | unstarted => exact absurd hpc (hend.started hs.fresh _)
  | loop =>
    have hstep := hend.work_eq_none (w := .pipeToSock) (c := .run 0) rfl
    simp [State.work, task, hpc] at hstep
  | read =>
    have hstep := hend.work_eq_none (w := .pipeToSock) (c := .run 1) rfl
    simp only [State.work, task, if_true, Option.bind_some, hpc, communicatePipeToSock,
      State.readPipe] at hstep
    split_ifs at hstep with hk
    refine ⟨List.eq_nil_of_length_eq_zero ?_, rfl⟩
    simp only [requestSize] at hk
    omega
  | write buf rest =>
    obtain ⟨-, hrest, -⟩ := hs.placed.write _ buf rest hpc
    have hlen := List.length_pos_of_ne_nil hrest
    have hstep := hend.work_eq_none (w := .pipeToSock) (c := .run 1) rfl
    simp only [State.work, task, if_true, Option.bind_some, hpc, communicatePipeToSock,
      State.writeSock, hopen, Bool.false_eq_true, if_false] at hstep
    split_ifs at hstep with hk
    omega
  | pipe rest =>
    obtain ⟨-, T, hT, hpos⟩ := hs.placed.pipe _ rest hpc
    obtain rfl := Option.some.inj hT
    cases hpos
  | kill ops => cases hs.killer _ ops hpc
  | returned =>
    obtain hin | ⟨hempty, -, -⟩ := hs.reader hopen
    · simp [hpc, Pc.inLoop] at hin
    · exact ⟨hempty, rfl⟩

/-- Where nothing more happens, the writer of the pipe has nothing in hand. -/
theorem Clearing.writer_idle (hs : Clearing s) (hend : Terminal cap s) (hcap : 0 < cap)
    (hempty : s.pipe = []) :
    (s.pc .clientToServer).unput = [] ∧ (s.pc .clientToServer).unsent = [] := by
  cases hpc : s.pc .clientToServer with
  | write buf rest =>
    obtain ⟨-, hrest, -⟩ := hs.placed.write _ buf rest hpc
    have hlen := List.length_pos_of_ne_nil hrest
    have hopen := hs.opened (by rw [hpc]; rfl) .outsocket
    have hstep := hend.work_eq_none (w := .clientToServer) (c := .run 1) rfl
    simp only [State.work, task, if_true, Option.bind_some, hpc, communicateToServerAndPipe,
      State.writeSock, hopen, Bool.false_eq_true, if_false] at hstep
    split_ifs at hstep with hk
    omega
  | pipe rest =>
    have hlen := List.length_pos_of_ne_nil (hs.placed.pipe _ rest hpc).1
    have hstep := hend.work_eq_none (w := .clientToServer) (c := .put 1) rfl
    simp only [State.work, task, if_true, Option.bind_some, hpc, communicateToServerAndPipe,
      State.writePipe, hempty, List.length_nil] at hstep
    split_ifs at hstep with hk
    omega
  | _ => exact ⟨rfl, rfl⟩

theorem Delivering.complete (hs : Delivering s) (hend : Terminal cap s) (hcap : 0 < cap) :
    s.toReplica = s.toServer := by
  by_cases hclosed : (s.sock .replicaSocket).closed = true
  · exact hs.delivered hclosed
  · have hopen : (s.sock .replicaSocket).closed = false := by simpa using hclosed
    obtain ⟨hempty, hreader⟩ := hs.clearing.reader_idle hend hopen
    obtain ⟨hunput, hunsent⟩ := hs.clearing.writer_idle hend hcap hempty
    simpa [Balanced, State.mirrored, hempty, hreader, hunput, hunsent]
      using hs.clearing.balanced hopen

end Clearing

/-- **Delivery at a clean close.** In a clean run that has come to an end what has been written to
the replica is what has been written to the server if and only if nothing for it was in the pipe, or
in the hands of the worker that reads from the pipe, when its socket was closed. -/
theorem delivered_iff_drained {cap : ℕ} (hcap : 0 < cap) {as : List Act} {s : State}
    (hclean : (session true cap).Along Clean (registered true) as)
    (hrun : (session true cap).run (registered true) as = some s) (hend : Terminal cap s) :
    (session true cap).Along Drained (registered true) as ↔ s.toReplica = s.toServer := by
  obtain ⟨hdrained, hs⟩ | ⟨hdrained, hs⟩ := Machine.Along.dichotomy (I := Delivering) (B := Lossy)
    (fun _ _ _ hs hclean ha h => hs.step hclean ha h)
    (fun _ _ _ hs hclean ha h => hs.lossy hclean ha h) (fun _ _ _ hs hclean h => hs.step hclean h)
    ⟨.registered, fun h => (by cases h)⟩ hclean hrun
  · exact iff_of_true hdrained (hs.complete hend hcap)
  · refine iff_of_false hdrained fun heq => ?_
    have hlost := hs.lost
    rw [heq] at hlost
    exact Nat.lt_irrefl _ hlost

/-- Nothing more happens when all workers have returned. -/
theorem terminal_of_returned {cap : ℕ} {s : State} (hstarting : s.starting = [])
    (hpc : ∀ w, s.pc w = .returned) : Terminal cap s := by
  intro a t h
  cases a with
  | peer i e => exact Or.inl ⟨i, e, rfl⟩
  | start =>
    obtain ⟨w, ws, hcons, -⟩ := step_start h
    simp [hstarting] at hcons
  | work w c => exact absurd (hpc w) (State.trans_of_work h).pc_ne_returned

/-- A request of one byte, which is in the pipe when the server has received it. -/
def teed : List Act :=
  [.start, .start, .start, .start, .peer .insocket (.deliver [1]), .peer .insocket .fin,
    .work .clientToServer (.run 0), .work .clientToServer (.run 1),
    .work .clientToServer (.run 1), .work .clientToServer (.put 1)]

/-- The client's stream ends, and all sockets are closed. -/
def closes : List Act :=
  [.work .clientToServer (.run 0), .work .clientToServer (.run 0),
    .work .clientToServer (.run 0), .work .clientToServer (.run 0),
    .work .clientToServer (.run 0), .work .clientToServer (.run 0),
    .work .serverToClient (.run 0), .work .serverToClient (.run 0),
    .work .fromReplica (.run 0), .work .fromReplica (.run 0)]

/-- The byte goes from the pipe to the socket of the replica. -/
def forwards : List Act :=
  [.work .pipeToSock (.run 0), .work .pipeToSock (.run 1), .work .pipeToSock (.run 1)]

/-- The byte is with the replica before the client's stream ends. -/
def drains : List Act :=
  teed ++ forwards ++ closes ++ [.work .pipeToSock (.run 0), .work .pipeToSock .fail]

/-- All sockets are closed while the byte is in the pipe. -/
def loses : List Act := teed ++ closes ++ forwards

theorem delivered_iff_drained_drains :
    ∃ s, (session true 1).run (registered true) drains = some s ∧ s.toServer = [1] ∧
      ((session true 1).Along Drained (registered true) drains ↔ s.toReplica = s.toServer) := by
  have hstate : ((session true 1).run (registered true) drains).map (fun s =>
      (s.toServer, s.starting, s.pc .clientToServer, s.pc .serverToClient, s.pc .pipeToSock,
        s.pc .fromReplica)) = some ([1], [], .returned, .returned, .returned, .returned) := by
    decide
  obtain ⟨s, hrun, hs⟩ := Option.map_eq_some_iff.mp hstate
  simp only [Prod.mk.injEq] at hs
  obtain ⟨hserver, hstarting, h₁, h₂, h₃, h₄⟩ := hs
  have hclean : (session true 1).Along Clean (registered true) drains :=
    Machine.along_of_decide (by decide)
  have hend : Terminal 1 s := terminal_of_returned hstarting fun w => by
    cases w <;> assumption
  exact ⟨s, hrun, hserver, delivered_iff_drained Nat.one_pos hclean hrun hend⟩

theorem delivered_fails : ¬ ∀ (as : List Act) (s : State),
    (session true pipeSize).Along Clean (registered true) as →
      (session true pipeSize).run (registered true) as = some s → Terminal pipeSize s →
        (s.sock .insocket).fin = true → s.toReplica = s.toServer := by
  intro hall
  have hstate : ((session true pipeSize).run (registered true) loses).map (fun s =>
      (s.toServer, s.toReplica, (s.sock .insocket).fin)) = some ([1], [], true) := by decide
  have hpcs : ((session true pipeSize).run (registered true) loses).map (fun s =>
      (s.starting, s.pc .clientToServer, s.pc .serverToClient, s.pc .pipeToSock,
        s.pc .fromReplica)) = some ([], .returned, .returned, .returned, .returned) := by decide
  have hclean : (session true pipeSize).Along Clean (registered true) loses :=
    Machine.along_of_decide (by decide)
  obtain ⟨s, hrun, hs⟩ := Option.map_eq_some_iff.mp hstate
  simp only [hrun, Option.map_some, Option.some.injEq, Prod.mk.injEq] at hs hpcs
  obtain ⟨hstarting, h₁, h₂, h₃, h₄⟩ := hpcs
  have hend : Terminal pipeSize s := terminal_of_returned hstarting fun w => by
    cases w <;> assumption
  have hsame := hall loses s hclean hrun hend hs.2.2
  simp [hs.1, hs.2.1] at hsame

end Parikshan.JavaProxy
