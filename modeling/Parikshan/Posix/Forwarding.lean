import Parikshan.Posix.Channel
import Mathlib.Logic.Function.Basic
import Mathlib.Data.Set.Basic

/-!
# Forwarding loops

A forwarding loop reads from a socket or a pipe into a buffer while the count is positive, sends
what it read to a destination socket, may write it to a pipe as well, and after the loop shuts
down and closes sockets. The loops of a proxy differ only in these parts, so they are one
definition with parameters, `Loop`, run by a process with its own descriptor table.

A `send` is one call but many steps, so the program counter carries the buffer and the part of it
that is still to be copied. The number of bytes returned or copied, and whether a write on a pipe
succeeds, are in the label (`Choice`).

## Main definitions

* `Loop`, `Proc`, `World`, `Loop.step`.
* `Loop.Trans`: what one step can do, case by case.
* `Loop.untee`: the loop without its pipe.

## Main results

* `Loop.trans_of_step`: inversion of `Loop.step`.
* `Loop.untee_step`: a loop that reads from a socket does on its sockets what it does without its
  pipe.
* `Loop.step_run_isSome`, `Loop.step_write_isSome`: when steps are enabled.
-/

namespace Parikshan.Posix

/-- What a loop reads from. -/
inductive Source (ι κ : Type*)
  | sock (i : ι)
  | pipe (q : κ)

/-- What a loop does to a socket after its last read. -/
inductive Op (ι : Type*)
  | shutdown (i : ι)
  | close (i : ι)
  deriving DecidableEq, Repr

/-- The socket of an operation. -/
def Op.target {ι : Type*} : Op ι → ι
  | .shutdown i => i
  | .close i => i

/-- Where a process is in a loop. -/
inductive Pc (ι : Type*)
  | sleep
  | read
  | send (buf rest : List Byte)
  | write (buf : List Byte)
  | cleanup (ops : List (Op ι))
  | exited
  | killed
  deriving DecidableEq, Repr

/-- A forwarding loop. -/
structure Loop (ι κ : Type*) where
  /-- where the function starts -/
  entry : Pc ι
  /-- the size of the buffer -/
  size : ℕ
  source : Source ι κ
  dest : Option ι
  /-- the pipe that gets a copy of what is sent -/
  tee : Option κ
  cleanup : List (Op ι)

/-- A process in a loop, with its descriptor table: the sockets it has open and the pipes whose
read end and whose write end it has open. -/
structure Proc (ι κ : Type*) where
  pc : Pc ι
  socks : ι → Bool
  rd : κ → Bool
  wr : κ → Bool

/-- The sockets and pipes that processes share. -/
structure World (ι κ : Type*) where
  sock : ι → Sock
  pipe : κ → Pipe

/-- What the kernel chooses in a step: a number of bytes, or the outcome of a nonblocking write. -/
inductive Choice
  | run (k : ℕ)
  | write (ok : Bool)
  deriving DecidableEq, Repr

section Calls

variable {ι κ : Type*} (p : Proc ι κ)

/-- The process goes on at `pc`. -/
def Proc.goto (pc : Pc ι) : Proc ι κ := { p with pc := pc }

/-- The process ends, which closes all its descriptors. -/
def Proc.release (pc : Pc ι) : Proc ι κ :=
  { pc := pc, socks := fun _ => false, rd := fun _ => false, wr := fun _ => false }

/-- `recv` through the table of the process: a closed descriptor is an error. -/
def Proc.recv (i : ι) (len k : ℕ) (s : Sock) : Option (Ret × Sock) :=
  if p.socks i then s.recv len k else some (.error, s)

/-- One step of `send` through the table of the process. -/
def Proc.send (i : ι) (k : ℕ) (buf rest : List Byte) (s : Sock) :
    Option (Sock.Sending × Sock) :=
  if p.socks i then s.send k buf rest else some (.returned, s)

/-- `shutdown` through the table of the process. -/
def Proc.shutdown (i : ι) (s : Sock) : Sock := if p.socks i then s.shutdown else s

/-- `read` on a pipe through the table of the process. -/
def Proc.read (q : κ) (hasWr : Bool) (len k : ℕ) (x : Pipe) : Option (Ret × Pipe) :=
  if p.rd q then x.read hasWr len k else some (.error, x)

/-- `write` on a pipe through the table of the process. -/
def Proc.write (q : κ) (buf : List Byte) (ok : Bool) (x : Pipe) : Option Pipe :=
  if p.wr q then x.write buf ok else if ok then none else some x

@[simp] theorem Proc.goto_pc (pc : Pc ι) : (p.goto pc).pc = pc := rfl

@[simp] theorem Proc.goto_socks (pc : Pc ι) : (p.goto pc).socks = p.socks := rfl

@[simp] theorem Proc.goto_rd (pc : Pc ι) : (p.goto pc).rd = p.rd := rfl

@[simp] theorem Proc.goto_wr (pc : Pc ι) : (p.goto pc).wr = p.wr := rfl

@[simp] theorem Proc.release_pc (pc : Pc ι) : (Proc.release pc : Proc ι κ).pc = pc := rfl

@[simp] theorem Proc.release_rd (pc : Pc ι) (q : κ) :
    (Proc.release pc : Proc ι κ).rd q = false := rfl

end Calls

section Updates

variable {ι κ : Type*} (w : World ι κ)

/-- Replace one socket. -/
def World.setSock [DecidableEq ι] (i : ι) (s : Sock) : World ι κ :=
  { w with sock := Function.update w.sock i s }

/-- Replace one pipe. -/
def World.setPipe [DecidableEq κ] (q : κ) (x : Pipe) : World ι κ :=
  { w with pipe := Function.update w.pipe q x }

section Sockets

variable [DecidableEq ι]

@[simp] theorem World.setSock_pipe (i : ι) (s : Sock) : (w.setSock i s).pipe = w.pipe := rfl

theorem World.setSock_sock (i j : ι) (s : Sock) :
    (w.setSock i s).sock j = if j = i then s else w.sock j := by
  simp only [setSock, Function.update_apply]

@[simp] theorem World.setSock_sock_self (i : ι) (s : Sock) : (w.setSock i s).sock i = s := by
  rw [setSock_sock, if_pos rfl]

theorem World.setSock_sock_of_ne {i j : ι} (h : j ≠ i) (s : Sock) :
    (w.setSock i s).sock j = w.sock j := by
  rw [setSock_sock, if_neg h]

end Sockets

section Pipes

variable [DecidableEq κ]

@[simp] theorem World.setPipe_sock (q : κ) (x : Pipe) : (w.setPipe q x).sock = w.sock := rfl

theorem World.setPipe_pipe (q r : κ) (x : Pipe) :
    (w.setPipe q x).pipe r = if r = q then x else w.pipe r := by
  simp only [setPipe, Function.update_apply]

@[simp] theorem World.setPipe_pipe_self (q : κ) (x : Pipe) : (w.setPipe q x).pipe q = x := by
  rw [setPipe_pipe, if_pos rfl]

theorem World.setPipe_pipe_of_ne {q r : κ} (h : r ≠ q) (x : Pipe) :
    (w.setPipe q x).pipe r = w.pipe r := by
  rw [setPipe_pipe, if_neg h]

end Pipes

end Updates

namespace Loop

variable {ι κ : Type*} [DecidableEq ι] [DecidableEq κ] (L : Loop ι κ)

/-! ### The step function -/

/-- Where the loop goes when a read has returned. -/
def afterRead : Ret → Pc ι
  | .bytes bs =>
    match L.dest with
    | some _ => .send bs bs
    | none => .read
  | .eof => .cleanup L.cleanup
  | .error => .cleanup L.cleanup

/-- Where the loop goes when a `send` has returned, whatever it returned. -/
def afterSend (buf : List Byte) : Pc ι :=
  match L.tee with
  | some _ => .write buf
  | none => .read

/-- The process after a step of a `send` call; `SIGPIPE` kills it. -/
def sending (p : Proc ι κ) (buf : List Byte) : Sock.Sending → Proc ι κ
  | .more rest => p.goto (.send buf rest)
  | .returned => p.goto (L.afterSend buf)
  | .sigpipe => Proc.release .killed

/-- One step of a process in the loop. `hasRd` and `hasWr` say which pipes have a process that
holds their read end and their write end. The loop has returned at `.cleanup []`. -/
def step (hasRd hasWr : κ → Bool) (w : World ι κ) (p : Proc ι κ) :
    Choice → Option (World ι κ × Proc ι κ)
  | .run k =>
    match p.pc with
    | .sleep => some (w, p.goto .read)
    | .read =>
      match L.source with
      | .sock i =>
        (p.recv i L.size k (w.sock i)).map fun x => (w.setSock i x.2, p.goto (L.afterRead x.1))
      | .pipe q =>
        (p.read q (hasWr q) L.size k (w.pipe q)).map fun x =>
          (w.setPipe q x.2, p.goto (L.afterRead x.1))
    | .send buf rest =>
      match L.dest with
      | some i =>
        (p.send i k buf rest (w.sock i)).map fun x => (w.setSock i x.2, L.sending p buf x.1)
      | none => none
    | .cleanup (.shutdown i :: ops) =>
      some (w.setSock i (p.shutdown i (w.sock i)), p.goto (.cleanup ops))
    | .cleanup (.close i :: ops) =>
      some (w, { p with pc := .cleanup ops, socks := Function.update p.socks i false })
    | .cleanup [] => none
    | .write _ => none
    | .exited => none
    | .killed => none
  | .write ok =>
    match p.pc, L.tee with
    | .write buf, some q =>
      if hasRd q then
        (p.write q buf ok (w.pipe q)).map fun x => (w.setPipe q x, p.goto .read)
      else some (w, Proc.release .killed)
    | _, _ => none

/-- What one step of a loop can do. -/
inductive Trans (hasRd hasWr : κ → Bool) (w : World ι κ) (p : Proc ι κ) :
    Choice → World ι κ → Proc ι κ → Prop
  | wake {k : ℕ} (hpc : p.pc = .sleep) : Trans hasRd hasWr w p (.run k) w (p.goto .read)
  | recv {k : ℕ} {i : ι} {r : Ret} {s : Sock} (hpc : p.pc = .read) (hsrc : L.source = .sock i)
      (h : p.recv i L.size k (w.sock i) = some (r, s)) :
      Trans hasRd hasWr w p (.run k) (w.setSock i s) (p.goto (L.afterRead r))
  | read {k : ℕ} {q : κ} {r : Ret} {x : Pipe} (hpc : p.pc = .read) (hsrc : L.source = .pipe q)
      (h : p.read q (hasWr q) L.size k (w.pipe q) = some (r, x)) :
      Trans hasRd hasWr w p (.run k) (w.setPipe q x) (p.goto (L.afterRead r))
  | send {k : ℕ} {i : ι} {buf rest : List Byte} {r : Sock.Sending} {s : Sock}
      (hpc : p.pc = .send buf rest) (hdst : L.dest = some i)
      (h : p.send i k buf rest (w.sock i) = some (r, s)) :
      Trans hasRd hasWr w p (.run k) (w.setSock i s) (L.sending p buf r)
  | shutdown {k : ℕ} {i : ι} {ops : List (Op ι)} (hpc : p.pc = .cleanup (.shutdown i :: ops)) :
      Trans hasRd hasWr w p (.run k) (w.setSock i (p.shutdown i (w.sock i)))
        (p.goto (.cleanup ops))
  | close {k : ℕ} {i : ι} {ops : List (Op ι)} (hpc : p.pc = .cleanup (.close i :: ops)) :
      Trans hasRd hasWr w p (.run k) w
        { p with pc := .cleanup ops, socks := Function.update p.socks i false }
  | write {ok : Bool} {q : κ} {buf : List Byte} {x : Pipe} (hpc : p.pc = .write buf)
      (htee : L.tee = some q) (hrd : hasRd q = true) (h : p.write q buf ok (w.pipe q) = some x) :
      Trans hasRd hasWr w p (.write ok) (w.setPipe q x) (p.goto .read)
  | writeSigpipe {ok : Bool} {q : κ} {buf : List Byte} (hpc : p.pc = .write buf)
      (htee : L.tee = some q) (hrd : hasRd q = false) :
      Trans hasRd hasWr w p (.write ok) w (Proc.release .killed)

variable {L} {hasRd hasWr : κ → Bool} {w w' : World ι κ} {p p' : Proc ι κ} {c : Choice}

/-- **Inversion of a step.** -/
theorem trans_of_step (h : L.step hasRd hasWr w p c = some (w', p')) :
    L.Trans hasRd hasWr w p c w' p' := by
  cases c with
  | run k =>
    simp only [step] at h
    split at h
    · next hpc =>
      obtain ⟨rfl, rfl⟩ := by simpa only [Option.some.injEq, Prod.mk.injEq] using h
      exact .wake hpc
    · next hpc =>
      split at h
      · next i hsrc =>
        obtain ⟨⟨r, s⟩, hr, heq⟩ := Option.map_eq_some_iff.mp h
        obtain ⟨rfl, rfl⟩ := by simpa only [Prod.mk.injEq] using heq
        exact .recv hpc hsrc hr
      · next q hsrc =>
        obtain ⟨⟨r, x⟩, hr, heq⟩ := Option.map_eq_some_iff.mp h
        obtain ⟨rfl, rfl⟩ := by simpa only [Prod.mk.injEq] using heq
        exact .read hpc hsrc hr
    · next buf rest hpc =>
      split at h
      · next i hdst =>
        obtain ⟨⟨r, s⟩, hr, heq⟩ := Option.map_eq_some_iff.mp h
        obtain ⟨rfl, rfl⟩ := by simpa only [Prod.mk.injEq] using heq
        exact .send hpc hdst hr
      · cases h
    · next i ops hpc =>
      obtain ⟨rfl, rfl⟩ := by simpa only [Option.some.injEq, Prod.mk.injEq] using h
      exact .shutdown hpc
    · next i ops hpc =>
      obtain ⟨rfl, rfl⟩ := by simpa only [Option.some.injEq, Prod.mk.injEq] using h
      exact .close hpc
    all_goals cases h
  | write ok =>
    simp only [step] at h
    split at h
    · next buf q hpc htee =>
      split_ifs at h with hrd
      · obtain ⟨x, hx, heq⟩ := Option.map_eq_some_iff.mp h
        obtain ⟨rfl, rfl⟩ := by simpa only [Prod.mk.injEq] using heq
        exact .write hpc htee hrd hx
      · obtain ⟨rfl, rfl⟩ := by simpa only [Option.some.injEq, Prod.mk.injEq] using h
        exact .writeSigpipe hpc htee (by simpa using hrd)
    · cases h

/-- A process comes to a write on a pipe only in a loop that has one. -/
theorem tee_of_step_write {buf : List Byte} (hpc : p'.pc = .write buf)
    (h : L.step hasRd hasWr w p c = some (w', p')) : ∃ q, L.tee = some q := by
  rw [← Option.ne_none_iff_exists']
  intro htee
  cases trans_of_step h with
  | wake => cases hpc
  | @recv _ _ r =>
    cases r with
    | bytes bs => cases hd : L.dest <;> simp [afterRead, hd] at hpc
    | eof => cases hpc
    | error => cases hpc
  | @read _ _ r =>
    cases r with
    | bytes bs => cases hd : L.dest <;> simp [afterRead, hd] at hpc
    | eof => cases hpc
    | error => cases hpc
  | @send _ _ _ _ r =>
    cases r with
    | more rest => cases hpc
    | returned => simp [sending, afterSend, htee] at hpc
    | sigpipe => cases hpc
  | shutdown => cases hpc
  | close => cases hpc
  | write => cases hpc
  | writeSigpipe => cases hpc

/-! ### Descriptors -/

end Loop

/-- A process that has not ended holds both ends of every pipe. No loop closes an end. -/
def Proc.HoldsPipes {ι κ : Type*} (p : Proc ι κ) : Prop :=
  p.pc ≠ .exited → p.pc ≠ .killed → (∀ q, p.rd q = true) ∧ ∀ q, p.wr q = true

namespace Loop

variable {ι κ : Type*} [DecidableEq ι] [DecidableEq κ] {L : Loop ι κ} {hasRd hasWr : κ → Bool}
  {w w' : World ι κ} {p p' : Proc ι κ} {c : Choice}

/-- A step of a loop keeps the pipes open, unless it kills the process. -/
theorem step_holdsPipes (hp : p.HoldsPipes) (h : L.step hasRd hasWr w p c = some (w', p')) :
    p'.HoldsPipes := by
  have hkeep (h₁ : p.pc ≠ .exited) (h₂ : p.pc ≠ .killed) (pc : Pc ι) :
      (p.goto pc).HoldsPipes := fun _ _ => hp h₁ h₂
  cases trans_of_step h with
  | wake hpc => exact hkeep (by simp [hpc]) (by simp [hpc]) _
  | recv hpc hsrc hr => exact hkeep (by simp [hpc]) (by simp [hpc]) _
  | read hpc hsrc hr => exact hkeep (by simp [hpc]) (by simp [hpc]) _
  | @send _ _ _ _ r _ hpc hdst hr =>
    cases r with
    | more rest => exact hkeep (by simp [hpc]) (by simp [hpc]) _
    | returned => exact hkeep (by simp [hpc]) (by simp [hpc]) _
    | sigpipe => exact fun _ hk => absurd rfl hk
  | shutdown hpc => exact hkeep (by simp [hpc]) (by simp [hpc]) _
  | close hpc => exact fun _ _ => hp (by simp [hpc]) (by simp [hpc])
  | write hpc htee hrd hx => exact hkeep (by simp [hpc]) (by simp [hpc]) _
  | writeSigpipe hpc htee hrd => exact fun _ hk => absurd rfl hk

/-! ### The sockets a loop touches -/

end Loop

/-- A loop receives from, sends to, shuts down and closes only sockets in `K`. -/
structure Loop.Within {ι κ : Type*} (K : Set ι) (L : Loop ι κ) : Prop where
  source : ∀ i, L.source = .sock i → i ∈ K
  dest : ∀ i, L.dest = some i → i ∈ K
  cleanup : ∀ o ∈ L.cleanup, o.target ∈ K

/-- What a process still shuts down and closes is in `K`. -/
def Proc.Within {ι κ : Type*} (K : Set ι) (p : Proc ι κ) : Prop :=
  ∀ ops, p.pc = .cleanup ops → ∀ o ∈ ops, o.target ∈ K

namespace Loop

variable {ι κ : Type*} [DecidableEq ι] [DecidableEq κ] {L : Loop ι κ} {hasRd hasWr : κ → Bool}
  {w w' : World ι κ} {p p' : Proc ι κ} {c : Choice} {K : Set ι}

omit [DecidableEq ι] [DecidableEq κ] in
theorem Within.afterRead (hL : L.Within K) (p : Proc ι κ) (r : Ret) :
    (p.goto (L.afterRead r)).Within K := by
  intro ops h
  cases r with
  | bytes bs => cases hd : L.dest <;> simp [Loop.afterRead, hd] at h
  | eof => exact Pc.cleanup.inj h ▸ hL.cleanup
  | error => exact Pc.cleanup.inj h ▸ hL.cleanup

omit [DecidableEq ι] [DecidableEq κ] in
theorem Within.sending (L : Loop ι κ) (p : Proc ι κ) (buf : List Byte) (r : Sock.Sending) :
    (L.sending p buf r).Within K := by
  intro ops h
  cases r with
  | more rest => cases h
  | returned => cases ht : L.tee <;> simp [Loop.sending, Loop.afterSend, ht] at h
  | sigpipe => cases h

/-- **Frame.** A step changes no socket that its loop does not touch. -/
theorem step_within (hL : L.Within K) (hp : p.Within K)
    (h : L.step hasRd hasWr w p c = some (w', p')) :
    p'.Within K ∧ ∀ j ∉ K, w'.sock j = w.sock j := by
  have hframe {i : ι} (hi : i ∈ K) (s : Sock) :
      ∀ j ∉ K, (w.setSock i s).sock j = w.sock j :=
    fun j hj => World.setSock_sock_of_ne _ (ne_of_mem_of_not_mem hi hj).symm s
  cases trans_of_step h with
  | wake hpc => exact ⟨(fun _ h => nomatch h), fun _ _ => rfl⟩
  | @recv _ i r s hpc hsrc hr => exact ⟨hL.afterRead p r, hframe (hL.source i hsrc) s⟩
  | read hpc hsrc hr => exact ⟨hL.afterRead p _, fun _ _ => rfl⟩
  | @send _ i buf rest r s hpc hdst hr =>
    exact ⟨Within.sending L p buf r, hframe (hL.dest i hdst) s⟩
  | @shutdown _ i ops hpc =>
    have hops := hp _ hpc
    refine ⟨fun ops' h o ho => ?_, hframe (hops _ List.mem_cons_self) _⟩
    exact hops o (List.mem_cons_of_mem _ (Pc.cleanup.inj h ▸ ho))
  | @close _ i ops hpc =>
    have hops := hp _ hpc
    refine ⟨fun ops' h o ho => ?_, fun _ _ => rfl⟩
    exact hops o (List.mem_cons_of_mem _ (Pc.cleanup.inj h ▸ ho))
  | write hpc htee hrd hx => exact ⟨(fun _ h => nomatch h), fun _ _ => rfl⟩
  | writeSigpipe hpc htee hrd => exact ⟨(fun _ h => nomatch h), fun _ _ => rfl⟩

/-! ### Forgetting the pipe -/

/-- The loop without its pipe. -/
def untee (L : Loop ι κ) : Loop ι κ := { L with tee := none }

end Loop

/-- Where the loop without its pipe is: a pending write on the pipe is behind it. -/
def Pc.untee {ι : Type*} : Pc ι → Pc ι
  | .write _ => .read
  | .sleep => .sleep
  | .read => .read
  | .send buf rest => .send buf rest
  | .cleanup ops => .cleanup ops
  | .exited => .exited
  | .killed => .killed

/-- Two worlds agree on the sockets in `K`. -/
def World.AgreeOn {ι κ : Type*} (K : Set ι) (w w₀ : World ι κ) : Prop :=
  ∀ i ∈ K, w₀.sock i = w.sock i

/-- A process and the same process without the pipe of its loop agree on the sockets in `K`. -/
structure Proc.Untee {ι κ : Type*} (K : Set ι) (p p₀ : Proc ι κ) : Prop where
  pc : p₀.pc = p.pc.untee
  socks : ∀ i ∈ K, p₀.socks i = p.socks i

section Untee

variable {ι κ : Type*} [DecidableEq ι] [DecidableEq κ] {L : Loop ι κ} {K : Set ι}
  {hasRd hasWr : κ → Bool} {w w' w₀ : World ι κ} {p p' p₀ : Proc ι κ}

omit [DecidableEq κ] in
theorem World.AgreeOn.setSock (h : World.AgreeOn K w w₀) (i : ι) (s : Sock) :
    World.AgreeOn K (w.setSock i s) (w₀.setSock i s) := by
  intro j hj
  simp only [World.setSock_sock, h j hj]

omit [DecidableEq κ] in
theorem World.AgreeOn.setSock_of_notMem (h : World.AgreeOn K w w₀) {i : ι} (hi : i ∉ K)
    (s : Sock) : World.AgreeOn K (w.setSock i s) w₀ := by
  intro j hj
  rw [World.setSock_sock_of_ne _ (ne_of_mem_of_not_mem hj hi), h j hj]

omit [DecidableEq ι] [DecidableEq κ] in
theorem Proc.Untee.goto (h : Proc.Untee K p p₀) (pc : Pc ι) :
    Proc.Untee K (p.goto pc) (p₀.goto pc.untee) :=
  ⟨rfl, h.socks⟩

omit [DecidableEq ι] [DecidableEq κ] in
theorem Proc.Untee.release (pc : Pc ι) :
    Proc.Untee K (Proc.release pc : Proc ι κ) (Proc.release pc.untee : Proc ι κ) :=
  ⟨rfl, fun _ _ => rfl⟩

omit [DecidableEq ι] [DecidableEq κ] in
/-- The loop with its pipe and the loop without it go on alike after a read. -/
theorem Loop.untee_afterRead (L : Loop ι κ) (r : Ret) :
    L.untee.afterRead r = (L.afterRead r).untee := by
  cases r with
  | bytes bs => cases hd : L.dest <;> simp [afterRead, untee, hd, Pc.untee]
  | eof => rfl
  | error => rfl

omit [DecidableEq ι] [DecidableEq κ] in
theorem Proc.Untee.sending (hp : Proc.Untee K p p₀) (buf : List Byte) (r : Sock.Sending) :
    Proc.Untee K (L.sending p buf r) (L.untee.sending p₀ buf r) := by
  cases r with
  | more rest => exact hp.goto _
  | returned =>
    refine ⟨?_, hp.socks⟩
    cases ht : L.tee <;> simp [Loop.sending, Loop.afterSend, Loop.untee, ht, Pc.untee]
  | sigpipe => exact .release .killed

/-- **The pipe of a loop does not feed back.** A step that does not write on the pipe is matched,
on the sockets the loop touches, by a step of the loop without its pipe, whatever the other
sockets and the pipes are. -/
theorem Loop.untee_step {i₀ : ι} (hsrc₀ : L.source = .sock i₀) (hL : L.Within K)
    (hK : p.Within K) (hasRd₀ hasWr₀ : κ → Bool) {k : ℕ}
    (hw : World.AgreeOn K w w₀) (hp : Proc.Untee K p p₀)
    (h : L.step hasRd hasWr w p (.run k) = some (w', p')) :
    ∃ w₀' p₀', L.untee.step hasRd₀ hasWr₀ w₀ p₀ (.run k) = some (w₀', p₀') ∧
      World.AgreeOn K w' w₀' ∧ Proc.Untee K p' p₀' := by
  have hi₀ := hL.source i₀ hsrc₀
  have hpc₀ := hp.pc
  cases trans_of_step h with
  | wake hpc =>
    rw [hpc] at hpc₀
    exact ⟨w₀, p₀.goto .read, by simp [step, hpc₀, Pc.untee], hw, hp.goto _⟩
  | @recv _ i r s hpc hsrc hr =>
    obtain rfl : i₀ = i := Source.sock.inj (hsrc₀.symm.trans hsrc)
    rw [hpc] at hpc₀
    have hr₀ : p₀.recv i₀ L.size k (w₀.sock i₀) = some (r, s) := by
      rw [← hr, Proc.recv, Proc.recv, hp.socks i₀ hi₀, hw i₀ hi₀]
    refine ⟨w₀.setSock i₀ s, p₀.goto (L.afterRead r).untee, ?_, hw.setSock i₀ s, hp.goto _⟩
    have hsrc' : L.untee.source = .sock i₀ := hsrc
    have hsize : L.untee.size = L.size := rfl
    simp [step, hpc₀, Pc.untee, hsrc', hsize, hr₀, untee_afterRead]
  | read hpc hsrc hr => simp [hsrc₀] at hsrc
  | @send _ i buf rest r s hpc hdst hr =>
    rw [hpc] at hpc₀
    have hi := hL.dest i hdst
    have hr₀ : p₀.send i k buf rest (w₀.sock i) = some (r, s) := by
      rw [← hr, Proc.send, Proc.send, hp.socks i hi, hw i hi]
    have hdst' : L.untee.dest = some i := hdst
    exact ⟨w₀.setSock i s, L.untee.sending p₀ buf r, by simp [step, hpc₀, Pc.untee, hdst', hr₀],
      hw.setSock i s, hp.sending buf r⟩
  | @shutdown _ i ops hpc =>
    rw [hpc] at hpc₀
    have hi : i ∈ K := hK _ hpc _ List.mem_cons_self
    have hs : p.shutdown i (w.sock i) = p₀.shutdown i (w₀.sock i) := by
      rw [Proc.shutdown, Proc.shutdown, hp.socks i hi, hw i hi]
    exact ⟨w₀.setSock i (p₀.shutdown i (w₀.sock i)), p₀.goto (.cleanup ops),
      by simp [step, hpc₀, Pc.untee], hs ▸ hw.setSock i _, hp.goto _⟩
  | @close _ i ops hpc =>
    rw [hpc] at hpc₀
    refine ⟨w₀, { p₀ with pc := .cleanup ops, socks := Function.update p₀.socks i false },
      by simp [step, hpc₀, Pc.untee], hw, ⟨rfl, fun j hj => ?_⟩⟩
    simp only [Function.update_apply, hp.socks j hj]

/-- A write on the pipe of a loop, while some process holds the read end, changes no socket and
is invisible without the pipe, whether it succeeds or not. -/
theorem Loop.untee_write {ok : Bool} (hrd : ∀ q, L.tee = some q → hasRd q = true)
    (hp : Proc.Untee K p p₀) (h : L.step hasRd hasWr w p (.write ok) = some (w', p')) :
    w'.sock = w.sock ∧ Proc.Untee K p' p₀ ∧ p' = p.goto .read := by
  cases trans_of_step h with
  | write hpc htee hrd' hx =>
    have hpc₀ := hp.pc
    rw [hpc] at hpc₀
    exact ⟨rfl, ⟨hpc₀, hp.socks⟩, rfl⟩
  | writeSigpipe hpc htee hrd' => simp [hrd _ htee] at hrd'

/-! ### Enabledness -/

/-- Whether a loop that reads from a socket can take a step other than a write on its pipe
depends on its source and its destination only. -/
theorem Loop.step_run_isSome {i : ι} (hsrc : L.source = .sock i) (hL : L.Within K)
    (hasRd₀ hasWr₀ : κ → Bool) (k : ℕ) (hw : World.AgreeOn K w w₀) :
    (L.step hasRd hasWr w p (.run k)).isSome = (L.step hasRd₀ hasWr₀ w₀ p (.run k)).isSome := by
  have hi := hL.source i hsrc
  cases hpc : p.pc with
  | read => simp [step, hpc, hsrc, hw i hi]
  | send buf rest =>
    cases hdst : L.dest with
    | none => simp [step, hpc, hdst]
    | some j => simp [step, hpc, hdst, hw j (hL.dest j hdst)]
  | cleanup ops =>
    cases ops with
    | nil => simp [step, hpc]
    | cons o ops => cases o <;> simp [step, hpc]
  | _ => simp [step, hpc]

/-- A write on the pipe of a loop is always enabled: it returns at once. -/
theorem Loop.step_write_isSome {q : κ} {buf : List Byte} (hpc : p.pc = .write buf)
    (htee : L.tee = some q) : (L.step hasRd hasWr w p (.write false)).isSome := by
  simp only [step, hpc, htee]
  split_ifs
  · rw [Option.isSome_map, Proc.write]
    split_ifs
    · rfl
    · contradiction
    · rfl
  · rfl

end Untee

end Parikshan.Posix
