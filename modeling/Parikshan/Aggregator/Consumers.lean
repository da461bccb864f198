import Parikshan.Aggregator.Isolation
import Parikshan.Aggregator.Serial
import Parikshan.Aggregator.Sessions
import Parikshan.Posix.Progress

/-!
# Who reads a pipe, and until when

The reader of a clone connection is the child of the second `fork` of `handle_clone_client`. The
first child, which drops what the clone sends, falls through when the clone closes, and forks a
reader of its own on the same pipe, whose socket is closed. As long as that does not happen and no
two clone handlers go by one index, every pipe has one reader, and that one can deliver.

The server holds the write ends of all pipes for good. So a pipe that production has finished with
never comes to its end, and a reader that has delivered everything waits in `read` from then on.

## Main definitions

* `CloneFamily`: what the processes of a clone connection hold.
* `SoleReader`: every pipe has at most one reader, which holds the socket of its clone.
* `SessionOver`: the forwarders of a production connection have ended, and the reader of its pipe
  has delivered everything.

## Main results

* `soleReader_iff`: the exact condition for a sole reader when the handlers pass the check alone.
* `sessionOver_waits`: the end of a session is never replayed.
-/

namespace Parikshan.Aggregator

open Posix

/-! ### The processes of a clone connection -/

/-- A process holds both ends of every pipe until it ends, and a reader of a pipe ends only by a
signal. -/
structure Process.Equipped (p : Process) : Prop where
  pipes : p.fds.HoldsPipes
  alive : (∀ c, p.code ≠ .call1 c ∧ p.code ≠ .call2 c) → (∀ c, p.code ≠ .exited c) →
    p.fds.pc ≠ .exited ∧ p.fds.pc ≠ .killed
  reader : ∀ c, p.code = .call2 c → p.fds.pc.inLoop = true ∨ p.fds.pc = .killed
  remote : p.fds.socks .remote = false

/-- The sockets of the processes of a clone connection. The first child has none behind its loop,
so the child that it forks has none. -/
def Process.Role (p : Process) : Pid → Prop
  | .main => p.Handler {.client}
  | .first => p.Leaving
  | .second => (∀ c, p.code ≠ .call1 c) ∧ p.fds.HoldsSocks {.client}
  | .firstSecond => (∀ c, p.code ≠ .call1 c) ∧ ∀ e, p.fds.socks e = false

/-- The processes of a clone connection. -/
structure CloneFamily (f : Pid → Option Process) : Prop where
  lineage : Lineage f
  equipped : ∀ pid p, f pid = some p → p.Equipped
  role : ∀ pid p, f pid = some p → p.Role pid

/-- A property of all processes, after one of them is replaced. -/
theorem forall_update {f : Pid → Option Process} {P : Pid → Process → Prop} {pid₀ : Pid}
    {q : Process} (h : ∀ pid p, f pid = some p → P pid p) (hq : P pid₀ q) :
    ∀ pid p, Function.update f pid₀ (some q) pid = some p → P pid p := by
  intro pid p hp
  by_cases hpid : pid = pid₀
  · subst hpid
    rw [Function.update_self, Option.some.injEq] at hp
    exact hp ▸ hq
  · rw [Function.update_of_ne hpid] at hp
    exact h pid p hp

namespace Process

variable {p : Process} {code : Code}

theorem Equipped.goto (h : p.Equipped) (hp : ∀ c, p.code ≠ .call1 c ∧ p.code ≠ .call2 c)
    (hexited : ∀ c, p.code ≠ .exited c) (hcode : ∀ c, code ≠ .call1 c ∧ code ≠ .call2 c) :
    (p.goto code).Equipped := by
  have hgo {d : Code} (hd : ∀ c, d ≠ .call2 c) : Equipped { p with code := d } :=
    ⟨h.pipes, fun _ _ => h.alive hp hexited, fun c hc => absurd hc (hd c), h.remote⟩
  cases code with
  | exited c =>
    exact ⟨fun he => absurd rfl he, fun _ hne => absurd rfl (hne c), fun _ hc => (by cases hc), rfl⟩
  | call1 c => exact absurd rfl (hcode c).1
  | call2 c => exact absurd rfl (hcode c).2
  | _ => exact hgo (by simp)

/-- A child has what its parent has. -/
theorem Equipped.child (h : p.Equipped) (hp : ∀ c, p.code ≠ .call1 c ∧ p.code ≠ .call2 c)
    (hexited : ∀ c, p.code ≠ .exited c) (code : Code) : (p.child code).Equipped := by
  obtain ⟨hne, hnk⟩ := h.alive hp hexited
  exact ⟨fun _ _ => h.pipes hne hnk, fun _ _ => ⟨by simp [Process.child], by simp [Process.child]⟩,
    fun _ _ => Or.inl rfl, h.remote⟩

/-- A step of a loop of a clone connection. -/
theorem Equipped.step (h : p.Equipped) {j : ℕ} {L : Loop End PipeId} {w w' : World End PipeId}
    {hasRd hasWr : PipeId → Bool} {c : Choice} {fds : Proc End PipeId}
    (hL : p.loop (.clone j) = some L) (hwr : ∀ q, hasWr q = true)
    (hstep : L.step hasRd hasWr w p.fds c = some (w', fds)) :
    Equipped { p with fds := fds } where
  pipes := Loop.step_holdsPipes h.pipes hstep
  alive hcall := by
    obtain ⟨d, hcode, -⟩ | ⟨d, q, hcode, -, -⟩ := loop_cases hL
    · exact absurd hcode (hcall d).1
    · exact absurd hcode (hcall d).2
  reader d hd := by
    obtain ⟨d', hcode, -⟩ | ⟨d', q, -, -, rfl⟩ := loop_cases hL
    · simp only at hd
      simp [hcode] at hd
    · rcases h.reader d hd with hin | hkilled
      · exact Loop.step_source_pipe rfl rfl hin h.pipes (hwr q) hstep
      · cases c <;> simp [Loop.step, hkilled] at hstep
  remote := Loop.step_socks h.remote hstep

/-- The first child returns from its loop; a reader does not. -/
theorem Equipped.afterCall (h : p.Equipped) (hpc : p.fds.pc = .cleanup []) :
    p.afterCall.Equipped := by
  unfold Process.afterCall
  split
  · refine ⟨h.pipes, fun _ _ => ⟨?_, ?_⟩, fun _ hc => (by cases hc), h.remote⟩
    · simp [Process.goto, hpc]
    · simp [Process.goto, hpc]
  · next c hcode =>
    rcases h.reader c hcode with hin | hkilled
    · simp [hpc, Pc.inLoop] at hin
    · simp [hpc] at hkilled
  · exact h

end Process

namespace CloneFamily

variable {cfg : Config} {s t : State} {a : Act} {j : ℕ} {f g : Pid → Option Process}
  {pid child : Pid} {p : Process} {code start : Code}

theorem listening : CloneFamily fun _ => none where
  lineage := .of_alone fun _ _ => rfl
  equipped _ _ hp := by cases hp
  role _ _ hp := by cases hp

/-- A handler is created with the socket of its client and all pipes of the server. -/
theorem accepted (hs : Held s) (hcode : code = .createConnection ∨ code = .getCounters) :
    CloneFamily (accepted s.server code).proc := by
  have hmain (pid : Pid) (p : Process)
      (hp : (Aggregator.accepted s.server code).proc pid = some p) :
      pid = .main ∧ p =
        { code := code
          fds := { pc := .read, socks := fun e => e = .client, rd := s.server.rd,
                   wr := s.server.wr } } := by
    by_cases hpid : pid = .main
    · subst hpid
      exact ⟨rfl, (Option.some.inj hp).symm⟩
    · rw [accepted_proc_of_ne hpid] at hp
      cases hp
  refine ⟨.of_alone fun pid hpid => accepted_proc_of_ne hpid, fun pid p hp => ?_,
    fun pid p hp => ?_⟩
  · obtain ⟨rfl, rfl⟩ := hmain pid p hp
    refine ⟨fun _ _ => ⟨hs.rd, hs.wr⟩, fun _ _ => ⟨by simp, by simp⟩, fun c hc => ?_, rfl⟩
    rcases hcode with rfl | rfl <;> cases hc
  · obtain ⟨rfl, rfl⟩ := hmain pid p hp
    refine ⟨fun c => by rcases hcode with rfl | rfl <;> simp, fun _ e he _ => ?_,
      fun _ => ⟨hs.rd, hs.wr⟩⟩
    simpa using he

/-- The handler goes on in its counter section. -/
theorem count (h : CloneFamily f) {m : Shm} (hp : f .main = some p)
    (hx : handleCounters (.clone j) s.shm p.code = some (m, code)) :
    CloneFamily (Function.update f .main (some (p.goto code))) := by
  obtain ⟨hexited, hcreate, -, hcall⟩ := handleCounters_code hx
  have hmain : p.Handler {.client} := h.role .main p hp
  exact ⟨h.lineage.step (.count hp hx),
    forall_update h.equipped ((h.equipped _ _ hp).goto hmain.noCall hexited hcall),
    forall_update h.role (hmain.goto hexited hcreate hcall)⟩

/-- The forks of a clone connection. -/
theorem fork (h : CloneFamily f) (hp : f pid = some p)
    (hfork : p.code.fork pid = some (code, child, start)) :
    CloneFamily (Function.update (Function.update f pid (some (p.goto code))) child
      (some (p.child start))) := by
  have hequipped := h.equipped pid p hp
  refine ⟨(h.lineage.fork hp hfork).2, ?_, ?_⟩
  all_goals
    obtain ⟨c, ⟨rfl, hcode, rfl, rfl, rfl⟩ | ⟨hcode, rfl, rfl, hpids⟩⟩ := Code.fork_cases hfork
  · refine forall_update (forall_update h.equipped ?_) ?_
    · exact hequipped.goto (by simp [hcode]) (by simp [hcode]) (by simp)
    · exact hequipped.child (by simp [hcode]) (by simp [hcode]) _
  · refine forall_update (forall_update h.equipped ?_) ?_
    · exact hequipped.goto (by simp [hcode]) (by simp [hcode]) (by simp)
    · exact hequipped.child (by simp [hcode]) (by simp [hcode]) _
  · have hmain : p.Handler {.client} := h.role .main p hp
    refine forall_update (forall_update h.role ?_) ?_
    · exact hmain.goto (by simp [hcode]) (by simp [hcode]) (by simp)
    · exact .start p c
  · rcases hpids with ⟨rfl, rfl⟩ | ⟨rfl, rfl⟩
    · have hmain : p.Handler {.client} := h.role .main p hp
      refine forall_update (forall_update h.role (.exited p _)) ⟨by simp [Process.child], ?_⟩
      exact (hmain.child (by simp [hcode]) (by simp [hcode]) _).1
    · have hfirst : p.Leaving := h.role .first p hp
      refine forall_update (forall_update h.role (.exited p _)) ⟨by simp [Process.child], ?_⟩
      exact (hfirst.child hcode).socks

/-- A process goes on in its loop. -/
theorem loop (h : CloneFamily f) (hs : Held s) {L : Loop End PipeId} {w : World End PipeId}
    {c : Choice} {fds : Proc End PipeId} (hp : f pid = some p) (hL : p.loop (.clone j) = some L)
    (hloop : L.step s.hasRd s.hasWr (s.world (.clone j)) p.fds c = some (w, fds)) :
    CloneFamily (Function.update f pid (some { p with fds := fds })) := by
  have hequipped := h.equipped pid p hp
  refine ⟨h.lineage.step (.loop hp hL hloop),
    forall_update h.equipped (hequipped.step hL hs.hasWr hloop), forall_update h.role ?_⟩
  have hrole := h.role pid p hp
  obtain ⟨d, hcode, rfl⟩ | ⟨d, q, hcode, -, rfl⟩ := Process.loop_cases hL
  · cases pid with
    | main => exact absurd hcode (hrole.noCall d).1
    | first =>
      refine Process.Leaving.step hrole (fun e he => ?_) hcode hloop
      cases e with
      | client => simp [firstCall, readDataAndDrop]
      | remote => simp [hequipped.remote] at he
    | second => exact absurd hcode (hrole.1 d)
    | firstSecond => exact absurd hcode (hrole.1 d)
  · cases pid with
    | main => exact absurd hcode (hrole.noCall d).2
    | first => exact absurd hcode (hrole.code d)
    | second => exact ⟨hrole.1, Loop.step_holdsSocks hrole.2 hloop⟩
    | firstSecond => exact ⟨hrole.1, fun e => Loop.step_socks (hrole.2 e) hloop⟩

/-- The first child returns from its loop. -/
theorem ret (h : CloneFamily f) {L : Loop End PipeId} (hp : f pid = some p)
    (hL : p.loop (.clone j) = some L) (hpc : p.fds.pc = .cleanup []) :
    CloneFamily (Function.update f pid (some p.afterCall)) := by
  have hequipped := h.equipped pid p hp
  refine ⟨(h.lineage.io hp hL).2, forall_update h.equipped (hequipped.afterCall hpc),
    forall_update h.role ?_⟩
  have hrole := h.role pid p hp
  obtain ⟨d, hcode, rfl⟩ | ⟨d, q, hcode, -, rfl⟩ := Process.loop_cases hL
  · cases pid with
    | main => exact absurd hcode (hrole.noCall d).1
    | first => exact Process.Leaving.afterCall hrole hcode hpc
    | second => exact absurd hcode (hrole.1 d)
    | firstSecond => exact absurd hcode (hrole.1 d)
  · rcases hequipped.reader d hcode with hin | hkilled
    · simp [hpc, Pc.inLoop] at hin
    · simp [hpc] at hkilled

/-- **Every step keeps what the processes of a clone connection hold.** -/
theorem step (h : CloneFamily f) (hs : Held s) (hstep : FamilyStep s (.clone j) f a g) :
    CloneFamily g := by
  cases hstep with
  | same ha => exact h
  | accept hnone hcode => exact accepted hs hcode
  | connect hk hp hcode hq => cases hk
  | count hp hx => exact h.count hp hx
  | fork hp hx => exact h.fork hp hx
  | loop hp hL hloop => exact h.loop hs hp hL hloop
  | ret hp hL hpc => exact h.ret hp hL hpc

end CloneFamily

/-- The invariant of all runs. -/
structure Families (s : State) : Prop where
  held : Held s
  vacant : Vacant s
  clone : ∀ j, CloneFamily (s.conn (.clone j)).proc

section Families

variable {cfg : Config} {s t : State} {a : Act} {j : ℕ} {pid : Pid} {p : Process} {q : PipeId}
  {c : ℕ}

theorem Families.listening (cap : PipeId → ℕ) : Families (listening cap) where
  held := .listening cap
  vacant := .listening cap
  clone _ := .listening

theorem Families.step (hs : Families s) (h : (aggregator cfg).step s a = some t) :
    Families t where
  held := hs.held.step h
  vacant := hs.vacant.step h
  clone j := (hs.clone j).step hs.held (step_family hs.vacant h (.clone j))

theorem families_of_run {cap : PipeId → ℕ} {as : List Act}
    (hrun : (aggregator cfg).run (Aggregator.listening cap) as = some s) : Families s :=
  Machine.invariant_of_step (fun _ _ _ hs h => hs.step h) (.listening cap) hrun

/-- A reader does not leave its loop, unless a signal kills it. -/
theorem Families.reader (hs : Families s) (hp : s.process (.clone j) pid = some p)
    (hcode : p.code = .call2 c) : p.fds.pc.inLoop = true ∨ p.fds.pc = .killed :=
  ((hs.clone j).equipped pid p hp).reader c hcode

/-- A reader waits at an empty pipe. -/
theorem Families.waits (hs : Families s) (hp : s.process (.clone j) pid = some p)
    (hcode : p.code = .call2 c) (hq : pipesArr c = some q) (hpc : p.fds.pc = .read)
    (hempty : (s.pipe q).buf = []) (ch : Choice) :
    (aggregator cfg).step s (.io (.clone j) pid ch) = none := by
  have hpipes := ((hs.clone j).equipped pid p hp).pipes (by simp [hpc]) (by simp [hpc])
  have hblocked : (secondCall (.clone j) q).step s.hasRd s.hasWr (s.world (.clone j)) p.fds ch =
      none := Loop.step_read_eq_none rfl hpc (hpipes.1 q) (hs.held.hasWr q) hempty ch
  have hloop : p.loop (.clone j) = some (secondCall (.clone j) q) := by
    simp [Process.loop, hcode, hq]
  simp [aggregator, State.io, hp, hloop, hpc, hblocked]

theorem pipesArr_val (q : PipeId) : pipesArr q.val = some q := dif_pos q.isLt

/-- The processes of a connection that fork no reader of their own. -/
theorem FamilyStep.firstSecond {k : Conn} {f g : Pid → Option Process}
    (h : FamilyStep s k f a g) (hne : a ≠ .fork k .first)
    (hf : ∀ p, f .firstSecond = some p → ∃ c, p.code = .call2 c ∧ pipesArr c = none) :
    ∀ p, g .firstSecond = some p → ∃ c, p.code = .call2 c ∧ pipesArr c = none := by
  have hupdate {pid : Pid} {p q : Process} {L : Loop End PipeId} (hp : f pid = some p)
      (hL : p.loop k = some L) (r : Process)
      (hr : Function.update f pid (some q) .firstSecond = some r) :
      ∃ c, r.code = .call2 c ∧ pipesArr c = none := by
    by_cases hpid : .firstSecond = pid
    · subst hpid
      obtain ⟨c, hcode, hc⟩ := hf p hp
      simp [Process.loop, hcode, hc] at hL
    · rw [Function.update_of_ne hpid] at hr
      exact hf r hr
  cases h with
  | same ha => exact hf
  | accept hnone hcode =>
    intro p hp
    rw [accepted_proc_of_ne (by simp)] at hp
    cases hp
  | connect hk hp hcode hq => simpa using hf
  | count hp hx => simpa using hf
  | fork hp hx =>
    obtain ⟨c, ⟨rfl, -, -, rfl, -⟩ | ⟨-, -, -, ⟨rfl, rfl⟩ | ⟨rfl, -⟩⟩⟩ := Code.fork_cases hx
    · simpa using hf
    · simpa using hf
    · exact absurd rfl hne
  | loop hp hL hloop => exact hupdate hp hL
  | ret hp hL hpc => exact hupdate hp hL

end Families

/-! ### One reader for a pipe -/

/-- A process executes `read_pipe_dest` on the pipe `q`. -/
def Process.Reads (q : PipeId) (p : Process) : Prop :=
  (∃ c, p.code = .call2 c ∧ pipesArr c = some q) ∧ p.fds.pc ≠ .killed

/-- A pipe has at most one reader, which has the socket of its clone open, and so has every process
that takes bytes from a pipe. -/
structure SoleReader (s : State) : Prop where
  unique : ∀ q j j' pid pid' p p', s.process (.clone j) pid = some p → p.Reads q →
    s.process (.clone j') pid' = some p' → p'.Reads q → j = j' ∧ pid = pid'
  connected : ∀ q j pid p, s.process (.clone j) pid = some p → p.Reads q →
    p.fds.socks .client = true
  taken : ∀ q k pid c t, s.io k pid c = some t → (t.pipe q).buf.length < (s.pipe q).buf.length →
    ∃ p, s.process k pid = some p ∧ p.fds.socks .client = true

/-- The first child of a clone connection does not come to its `fork` with an index that has a
pipe: the clone keeps its side open. -/
def NeverFalls (s : State) : Act → Prop
  | .fork (.clone j) .first => ∀ c, s.index (.clone j) = some c → pipesArr c = none
  | _ => True

/-- The invariant of the runs whose clone handlers pass the check alone and whose first children
do not fork. -/
structure Sole (s : State) : Prop extends Families s where
  incrementing : Incrementing s.shm s.phase
  clone_ticketed : Ticketed s.shm.shm2 (pendings .second s.phase) (settleds .second s.phase)
  fallen : ∀ j p, s.process (.clone j) .firstSecond = some p →
    ∃ c, p.code = .call2 c ∧ pipesArr c = none

section Sole

variable {cfg : Config} {s t : State} {a : Act} {j j' : ℕ} {pid : Pid} {p : Process} {q : PipeId}
  {c : ℕ}

/-- Bytes are taken from a pipe by its readers only. -/
theorem reads_of_io {k : Conn} {ch : Choice} (h : s.io k pid ch = some t)
    (hlt : (t.pipe q).buf.length < (s.pipe q).buf.length) :
    ∃ j p, k = .clone j ∧ s.process k pid = some p ∧ p.Reads q := by
  let cfg : Config := { remoteHost := "", duplicateHost := "" }
  have hstep : (aggregator cfg).step s (.io k pid ch) = some t := h
  obtain ⟨p, L, hp, hL, ⟨-, -, rfl⟩ | ⟨-, w, fds, hloop, rfl⟩⟩ := step_io hstep
  · exact absurd hlt (lt_irrefl _)
  · have hsource : L.source = .pipe q := by
      by_contra hsrc
      exact absurd hlt (Loop.step_pipe_length hsrc hloop).not_gt
    have hkilled : p.fds.pc ≠ .killed := by
      intro hpc
      cases ch <;> simp [Loop.step, hpc] at hloop
    obtain ⟨d, hcode, rfl⟩ | ⟨d, q', hcode, hq', rfl⟩ := Process.loop_cases hL
    · cases k <;> simp [firstCall, forwardData, readDataAndDrop] at hsource
    · cases k with
      | prod i => simp [secondCall, forwardDataToDestAndPipe] at hsource
      | clone j =>
        obtain rfl : q' = q := by simpa [secondCall, readPipeDest] using hsource
        exact ⟨j, p, rfl, hp, ⟨d, hcode, hq'⟩, hkilled⟩

theorem Sole.listening (cap : PipeId → ℕ) : Sole (listening cap) where
  toFamilies := .listening cap
  incrementing := .createShmSeg
  clone_ticketed := .zero
  fallen j p hp := by cases hp

/-- Clone handlers that pass the check alone get indices of their own. -/
theorem Sole.step (hs : Sole s) (hpass : PassesAlone s a) (hfall : NeverFalls s a)
    (h : (aggregator cfg).step s a = some t) : Sole t := by
  refine { hs.toFamilies.step h with incrementing := ?_, clone_ticketed := ?_, fallen := ?_ }
  · rcases step_phase hs.vacant h with ⟨k, ψ, rfl, hstep, hphase⟩ | ⟨-, hshm, hphase⟩
    · rw [hphase]
      exact hs.incrementing.step hstep
    · rw [hshm, hphase]
      exact hs.incrementing
  · rcases step_phase hs.vacant h with ⟨k, ψ, rfl, hstep, hphase⟩ | ⟨-, hshm, hphase⟩
    · rw [hphase]
      have hmoves := hs.incrementing.moves hstep
      refine hmoves.ticketed (x := .second) hs.clone_ticketed fun c htakes hk => ?_
      generalize hφ : s.phase k = φ₀ at htakes
      cases htakes with
      | prod i => cases hk
      | clone j _ c1 hc =>
        obtain ⟨hshm, hfree⟩ := hpass c c1 hφ hc
        exact ⟨hshm.symm, hfree⟩
    · rw [hshm, hphase]
      exact hs.clone_ticketed
  · intro j
    by_cases ha : a = .fork (.clone j) .first
    · subst ha
      obtain ⟨p, code, child, start, hp, hx, rfl⟩ := step_fork h
      obtain ⟨c, ⟨hpid, -⟩ | ⟨hcode, rfl, rfl, ⟨hpid, -⟩ | ⟨-, rfl⟩⟩⟩ := Code.fork_cases hx
      · cases hpid
      · cases hpid
      · intro r hr
        rw [State.setProcess_process_self, Option.some.injEq] at hr
        subst hr
        have hindex := (hs.clone j).lineage.index_eq hp (d := c) (by rw [hcode]; rfl)
        exact ⟨c, rfl, hfall c hindex⟩
    · exact (step_family hs.vacant h (.clone j)).firstSecond ha (hs.fallen j)

/-- The reader of a pipe is the second child of a clone connection. -/
theorem Sole.second (hs : Sole s) (hp : s.process (.clone j) pid = some p) (hq : p.Reads q) :
    pid = .second ∧ p.fds.socks .client = true ∧ s.index (.clone j) = some q.val := by
  obtain ⟨⟨c, hcode, hc⟩, hkilled⟩ := hq
  have hrole := (hs.clone j).role pid p hp
  have hindex := (hs.clone j).lineage.index_eq hp (d := c) (by rw [hcode]; rfl)
  cases pid with
  | main => exact absurd hcode (hrole.noCall c).2
  | first => exact absurd hcode (hrole.code c)
  | second =>
    have hin := (hs.reader hp hcode).resolve_right hkilled
    exact ⟨rfl, hrole.2 hin .client rfl, val_of_pipesArr hc ▸ hindex⟩
  | firstSecond =>
    obtain ⟨d, hd, hnone⟩ := hs.fallen j p hp
    obtain rfl : c = d := Code.call2.inj (hcode.symm.trans hd)
    simp [hc] at hnone

theorem Sole.soleReader (hs : Sole s) : SoleReader s := by
  have hconnected : ∀ q j pid p, s.process (.clone j) pid = some p → p.Reads q →
      p.fds.socks .client = true := fun q j pid p hp hq => (hs.second hp hq).2.1
  refine ⟨fun q j j' pid pid' p p' hp hq hp' hq' => ?_, hconnected,
    fun q k pid c t h hlt => ?_⟩
  · obtain ⟨rfl, -, hindex⟩ := hs.second hp hq
    obtain ⟨rfl, -, hindex'⟩ := hs.second hp' hq'
    refine ⟨hs.clone_ticketed.injective (H := fun j => s.index (.clone j)) (fun j c hj => ?_)
      hindex hindex', rfl⟩
    exact Phase.index_eq_some.mp (s.index_eq _ ▸ hj)
  · obtain ⟨j, p, rfl, hp, hq⟩ := reads_of_io h hlt
    exact ⟨p, hp, hconnected q j pid p hp hq⟩

/-- The first child falls through without a socket, and the reader that it forks has none. -/
theorem Sole.not_soleReader (hs : Sole s) (hfall : ¬ NeverFalls s a)
    (h : (aggregator cfg).step s a = some t) : ¬ SoleReader t := by
  intro hsole
  unfold NeverFalls at hfall
  split at hfall
  · next j =>
    simp only [not_forall] at hfall
    obtain ⟨c, hindex, hc⟩ := hfall
    obtain ⟨q, hq⟩ := Option.ne_none_iff_exists'.mp hc
    obtain ⟨p, code, child, start, hp, hx, rfl⟩ := step_fork h
    obtain ⟨d, ⟨hpid, -⟩ | ⟨hcode, rfl, rfl, ⟨hpid, -⟩ | ⟨-, rfl⟩⟩⟩ := Code.fork_cases hx
    · cases hpid
    · cases hpid
    · have hd := (hs.clone j).lineage.index_eq hp (d := d) (by rw [hcode]; rfl)
      obtain rfl : c = d := Option.some.inj (hindex.symm.trans hd)
      have hfirst : p.Leaving := (hs.clone j).role .first p hp
      have hsock := (hfirst.child hcode).socks .client
      have hreads : (p.child (.call2 c)).Reads q := ⟨⟨c, rfl, hq⟩, by simp [Process.child]⟩
      have hopen := hsole.connected q j .firstSecond _ (State.setProcess_process_self ..) hreads
      simp [hsock] at hopen
  · exact hfall trivial

end Sole

/-- Handlers that take turns pass the check alone. -/
theorem passesAlone_of_sectionAlone {cfg : Config} {cap : PipeId → ℕ} {as : List Act}
    (h : (aggregator cfg).Along SectionAlone (listening cap) as) :
    (aggregator cfg).Along PassesAlone (listening cap) as := by
  refine Machine.Along.imp (I := fun s => Vacant s ∧ ∃ o, Serial s.shm s.phase o) ?_ ?_
    ⟨.listening cap, {}, .listening cap⟩ h
  · rintro s a t ⟨hs, o, ho⟩ ha hstep
    exact ⟨hs.step hstep, _, ho.step hs ha hstep⟩
  · rintro s a t ⟨-, o, ho⟩ - -
    exact ho.passesAlone

/-- `pipes_arr[0]`. -/
def firstPipe : PipeId := ⟨0, Nat.succ_pos _⟩

/-- The clone that has got its response closes its side, and the process that has dropped what it
sent forks. -/
def cloneCloses : List Act :=
  replayed ++ .peer (.clone 0) .client .fin ::
    List.replicate 4 (.io (.clone 0) .first (.run 0)) ++ [.fork (.clone 0) .first]

/-- A process has exited or has been killed. -/
def Process.Ended (p : Process) : Prop := (∃ c, p.code = .exited c) ∨ p.fds.pc = .killed

/-- Both forwarders of the `i`-th production connection have ended, its pipe is empty, and the
reader of the `j`-th clone connection on that pipe has delivered everything. -/
structure SessionOver (s : State) (i j : ℕ) (q : PipeId) : Prop where
  index : s.index (.prod i) = some q.val
  forwarders : ∀ pid, pid = .first ∨ pid = .second →
    ∃ p, s.process (.prod i) pid = some p ∧ p.Ended
  empty : (s.pipe q).buf = []
  reader : ∃ p, s.process (.clone j) .second = some p ∧ p.code = .call2 q.val ∧ p.fds.pc = .read

/-- **The end of a session is never replayed.** In every reachable state in which a session is
over, the reader of its pipe is blocked in `read`; and in no reachable state has a reader left its
loop, unless a signal has killed it. -/
theorem sessionOver_waits {cfg : Config} {cap : PipeId → ℕ} {as : List Act} {s : State}
    (hrun : (aggregator cfg).run (listening cap) as = some s) :
    (∀ i j q, SessionOver s i j q →
      ∀ ch, (aggregator cfg).step s (.io (.clone j) .second ch) = none) ∧
      ∀ j pid p c, s.process (.clone j) pid = some p → p.code = .call2 c →
        p.fds.pc.inLoop = true ∨ p.fds.pc = .killed := by
  have hs := families_of_run hrun
  refine ⟨fun i j q hover ch => ?_, fun j pid p c hp hcode => hs.reader hp hcode⟩
  obtain ⟨p, hp, hcode, hpc⟩ := hover.reader
  exact hs.waits hp hcode (pipesArr_val q) hpc hover.empty ch

/-- After the replay the production container closes its connection, and all processes of that
connection exit. -/
def productionCloses : List Act :=
  replayed ++ .peer (.prod 0) .client .fin ::
    List.replicate 6 (.io (.prod 0) .first (.run 0)) ++
    List.replicate 6 (.io (.prod 0) .second (.run 0)) ++
    .fork (.prod 0) .first :: List.replicate 6 (.io (.prod 0) .firstSecond (.run 0))

theorem productionCloses_over :
    ∃ s, (aggregator twoHosts).run (listening fun _ => 2) productionCloses = some s ∧
      SessionOver s 0 0 firstPipe := by
  have hpipe : ((aggregator twoHosts).run (listening fun _ => 2) productionCloses).map (fun s =>
      (s.index (.prod 0), (s.pipe firstPipe).buf,
        (s.process (.clone 0) .second).map fun p => (p.code, p.fds.pc))) =
      some (some 0, [], some (.call2 0, .read)) := by decide
  have hcodes : ((aggregator twoHosts).run (listening fun _ => 2) productionCloses).map (fun s =>
      ((s.process (.prod 0) .first).map Process.code,
        (s.process (.prod 0) .second).map Process.code)) =
      some (some (.exited (some 0)), some (.exited (some 0))) := by decide
  obtain ⟨s, hrun, hs⟩ := Option.map_eq_some_iff.mp hpipe
  rw [hrun] at hcodes
  simp only [Option.map_some, Option.some.injEq, Prod.mk.injEq] at hs hcodes
  obtain ⟨hindex, hempty, hreader⟩ := hs
  obtain ⟨hfirst, hsecond⟩ := hcodes
  refine ⟨s, hrun, hindex, fun pid hpid => ?_, hempty, ?_⟩
  · rcases hpid with rfl | rfl
    · obtain ⟨p, hp, hcode⟩ := Option.map_eq_some_iff.mp hfirst
      exact ⟨p, hp, Or.inl ⟨_, hcode⟩⟩
    · obtain ⟨p, hp, hcode⟩ := Option.map_eq_some_iff.mp hsecond
      exact ⟨p, hp, Or.inl ⟨_, hcode⟩⟩
  · obtain ⟨p, hp, hpq⟩ := Option.map_eq_some_iff.mp hreader
    exact ⟨p, hp, (Prod.mk.inj hpq).1, (Prod.mk.inj hpq).2⟩

theorem sessionOver_waits_closed :
    ∃ s, SessionOver s 0 0 firstPipe ∧
      ∀ ch, (aggregator twoHosts).step s (.io (.clone 0) .second ch) = none := by
  obtain ⟨s, hrun, hover⟩ := productionCloses_over
  exact ⟨s, hover, (sessionOver_waits hrun).1 0 0 firstPipe hover⟩

theorem sessionOver_fails : ¬ ∀ (cfg : Config) (cap : PipeId → ℕ) (as : List Act) (s : State),
    (aggregator cfg).run (listening cap) as = some s → ∀ i j q, SessionOver s i j q →
    ∃ n, ((aggregator cfg).step s (.io (.clone j) .second (.run n))).isSome := by
  intro hall
  obtain ⟨s, hrun, hover⟩ := productionCloses_over
  obtain ⟨n, hn⟩ := hall twoHosts _ productionCloses s hrun 0 0 firstPipe hover
  obtain ⟨t, ht⟩ := Option.isSome_iff_exists.mp hn
  obtain ⟨p, hp, hcode, hpc⟩ := hover.reader
  have hblocked : (aggregator twoHosts).step s (.io (.clone 0) .second (.run n)) = none :=
    (families_of_run hrun).waits hp hcode (pipesArr_val firstPipe) hpc hover.empty (.run n)
  simp [hblocked] at ht

end Parikshan.Aggregator
