import Parikshan.Posix.Dataflow

/-!
# When a forwarding loop is blocked

A process in a forwarding loop waits in a `recv` on a connection on which nothing has arrived, in
a `read` on an empty pipe that somebody can still write to, or in a `send` for space in the send
buffer. Everything else it does at once.

## Main definitions

* `Loop.Fits`: the program counter is one that the loop comes to.
* `Source.Ready`: the next read of the loop returns.
* `World.Roomy`: the kernel accepts bytes on every socket.

## Main results

* `Loop.step_fits`: every step keeps `Loop.Fits`.
* `Loop.step_source_pipe`, `Loop.step_read_eq_none`: a reader of a pipe whose write end is held.
* `Loop.exists_step`: a process that has not ended takes a step, unless it waits for its source.
-/

namespace Parikshan.Posix

/-- A process sends only a nonempty rest and only in a loop with a destination, and writes only in
a loop with a pipe. -/
structure Loop.Fits {ι κ : Type*} (L : Loop ι κ) (pc : Pc ι) : Prop where
  send : ∀ buf rest, pc = .send buf rest → rest ≠ [] ∧ ∃ d, L.dest = some d
  write : ∀ buf, pc = .write buf → ∃ q, L.tee = some q

/-- The next read of a process returns: it has the descriptor closed, or there is something to
read, or the stream has ended. -/
def Source.Ready {ι κ : Type*} (hasWr : κ → Bool) (w : World ι κ) (p : Proc ι κ) :
    Source ι κ → Prop
  | .sock i => p.socks i = true → (w.sock i).inq ≠ [] ∨ (w.sock i).err = true ∨
      (w.sock i).fin = true ∨ (w.sock i).rst = true ∨ (w.sock i).shut = true
  | .pipe q => p.rd q = true → (w.pipe q).buf ≠ [] ∨ hasWr q = false

/-- Every send buffer has room. -/
def World.Roomy {ι κ : Type*} (w : World ι κ) : Prop := ∀ i, 0 < (w.sock i).room

namespace Loop

section Calls

variable {ι κ : Type*} {L : Loop ι κ} {p : Proc ι κ}

theorem Fits.of_ne {pc : Pc ι} (hsend : ∀ buf rest, pc ≠ .send buf rest)
    (hwrite : ∀ buf, pc ≠ .write buf) : L.Fits pc :=
  ⟨fun buf rest h => absurd h (hsend buf rest), fun buf h => absurd h (hwrite buf)⟩

theorem Fits.afterRead {r : Ret} (hr : ∀ bs, r = .bytes bs → bs ≠ []) :
    L.Fits (L.afterRead r) := by
  cases r with
  | bytes bs =>
    cases hd : L.dest with
    | none => exact .of_ne (by simp [Loop.afterRead, hd]) (by simp [Loop.afterRead, hd])
    | some d =>
      refine ⟨fun buf rest h => ?_, fun buf h => by simp [Loop.afterRead, hd] at h⟩
      obtain ⟨rfl, rfl⟩ := by simpa [Loop.afterRead, hd] using h
      exact ⟨hr bs rfl, d, hd⟩
  | eof => exact .of_ne (by simp [Loop.afterRead]) (by simp [Loop.afterRead])
  | error => exact .of_ne (by simp [Loop.afterRead]) (by simp [Loop.afterRead])

theorem Fits.afterSend (buf : List Byte) : L.Fits (L.afterSend buf) where
  send buf' rest h := by cases ht : L.tee <;> simp [Loop.afterSend, ht] at h
  write buf' h := by
    cases ht : L.tee with
    | none => simp [Loop.afterSend, ht] at h
    | some q => exact ⟨q, rfl⟩

/-- What a read through the table of the process returns is not empty, if it is data. -/
theorem recv_ne_nil {i : ι} {len k : ℕ} {s t : Sock} {bs : List Byte}
    (h : p.recv i len k s = some (.bytes bs, t)) : bs ≠ [] := by
  unfold Proc.recv at h
  split_ifs at h
  · exact (Sock.recv_bytes h).1
  · cases h

theorem read_ne_nil {q : κ} {hasWr : Bool} {len k : ℕ} {x y : Pipe} {bs : List Byte}
    (h : p.read q hasWr len k x = some (.bytes bs, y)) : bs ≠ [] := by
  unfold Proc.read Pipe.read at h
  split_ifs at h with hrd hbuf hwr hk
  · cases h
  · simp only [Option.some.injEq, Prod.mk.injEq, Ret.bytes.injEq] at h
    obtain ⟨rfl, -⟩ := h
    intro hnil
    have hlen := congrArg List.length hnil
    simp only [List.length_take, List.length_nil] at hlen
    omega
  · cases h

/-- What is left to send after one more step of a call is not empty. -/
theorem send_more_ne_nil {i : ι} {k : ℕ} {buf rest rest' : List Byte} {s t : Sock}
    (h : p.send i k buf rest s = some (.more rest', t)) : rest' ≠ [] := by
  unfold Proc.send Sock.send at h
  split_ifs at h with hs hshut hlen herr hk hkr <;>
    simp only [Option.some.injEq, Prod.mk.injEq, Sock.Sending.more.injEq, reduceCtorEq,
      false_and] at h
  obtain ⟨rfl, -⟩ := h
  intro hnil
  have hlen := congrArg List.length hnil
  simp only [List.length_drop, List.length_nil] at hlen
  omega

/-! ### Reads, sends and writes that return -/

theorem exists_recv {i : ι} {len : ℕ} (hlen : 0 < len) {s : Sock}
    (hs : p.socks i = true → s.inq ≠ [] ∨ s.err = true ∨ s.fin = true ∨ s.rst = true ∨
      s.shut = true) : ∃ k x, p.recv i len k s = some x := by
  unfold Proc.recv
  split_ifs with hi
  · unfold Sock.recv
    split_ifs with hq he hend
    · exact ⟨0, _, rfl⟩
    · exact ⟨0, _, rfl⟩
    · have hready := hs hi
      simp only [Bool.or_eq_true, not_or, Bool.not_eq_true] at hend
      have herr : s.err = false := by simpa [hend] using he
      simp [hq, herr, hend] at hready
    · have hpos := List.length_pos_iff.mpr hq
      exact ⟨1, _, if_pos ⟨by omega, hlen, hpos⟩⟩
  · exact ⟨0, _, rfl⟩

theorem exists_read {q : κ} {hasWr : Bool} {len : ℕ} (hlen : 0 < len) {x : Pipe}
    (hx : p.rd q = true → x.buf ≠ [] ∨ hasWr = false) :
    ∃ k y, p.read q hasWr len k x = some y := by
  unfold Proc.read
  split_ifs with hq
  · unfold Pipe.read
    split_ifs with hbuf hwr
    · simp [hbuf, hwr] at hx
      exact absurd hq (by simpa using hx)
    · exact ⟨0, _, rfl⟩
    · have hpos := List.length_pos_iff.mpr hbuf
      exact ⟨1, _, if_pos ⟨by omega, hlen, hpos⟩⟩
  · exact ⟨0, _, rfl⟩

theorem exists_send {i : ι} {b rest : List Byte} (hrest : rest ≠ []) {s : Sock}
    (hroom : 0 < s.room) : ∃ k x, p.send i k b rest s = some x := by
  unfold Proc.send
  split_ifs with hi
  · unfold Sock.send
    split_ifs with hclosed hlen herr
    · exact ⟨0, _, rfl⟩
    · exact ⟨0, _, rfl⟩
    · exact ⟨0, _, rfl⟩
    · have hpos := List.length_pos_iff.mpr hrest
      exact ⟨1, _, if_pos ⟨by omega, hpos, hroom⟩⟩
  · exact ⟨0, _, rfl⟩

end Calls

/-! ### Steps of a loop -/

variable {ι κ : Type*} [DecidableEq ι] [DecidableEq κ] {L : Loop ι κ} {hasRd hasWr : κ → Bool}
  {w w' : World ι κ} {p p' : Proc ι κ} {c : Choice}

/-- A loop comes only to program counters that fit it. -/
theorem step_fits (h : L.step hasRd hasWr w p c = some (w', p')) : L.Fits p'.pc := by
  cases trans_of_step h with
  | wake hpc => exact .of_ne (by simp) (by simp)
  | recv hpc hsrc hr => exact .afterRead fun bs hbs => recv_ne_nil (hbs ▸ hr)
  | read hpc hsrc hr => exact .afterRead fun bs hbs => read_ne_nil (hbs ▸ hr)
  | @send _ i buf rest r _ hpc hdst hr =>
    cases r with
    | more rest' =>
      refine ⟨fun buf' rest'' h => ?_, fun _ h => (by cases h)⟩
      obtain ⟨rfl, rfl⟩ := by simpa [sending] using h
      exact ⟨send_more_ne_nil hr, i, hdst⟩
    | returned => exact .afterSend buf
    | sigpipe => exact .of_ne (by simp [sending]) (by simp [sending])
  | shutdown hpc => exact .of_ne (by simp) (by simp)
  | close hpc => exact .of_ne (by simp) (by simp)
  | write hpc htee hrd hx => exact .of_ne (by simp) (by simp)
  | writeSigpipe hpc htee hrd => exact .of_ne (by simp) (by simp)

/-- A loop that reads from a pipe does not end while somebody holds the write end: a process that
holds the read end stays in its loop, unless a signal kills it. -/
theorem step_source_pipe {q : κ} (hsrc : L.source = .pipe q) (htee : L.tee = none)
    (hin : p.pc.inLoop = true) (hp : p.HoldsPipes) (hwr : hasWr q = true)
    (h : L.step hasRd hasWr w p c = some (w', p')) : p'.pc.inLoop = true ∨ p'.pc = .killed := by
  cases trans_of_step h with
  | wake hpc => exact Or.inl rfl
  | recv hpc hsrc' hr => simp [hsrc] at hsrc'
  | @read k q' r x hpc hsrc' hr =>
    obtain rfl : q = q' := Source.pipe.inj (hsrc.symm.trans hsrc')
    rw [Proc.read, if_pos ((hp (by simp [hpc]) (by simp [hpc])).1 q), hwr] at hr
    obtain ⟨bs, rfl, -⟩ := Pipe.read_bytes hr
    cases hd : L.dest <;> exact Or.inl (by simp [afterRead, hd, Pc.inLoop])
  | @send k i buf rest r x hpc hdst hr =>
    cases r with
    | more rest' => exact Or.inl rfl
    | returned => exact Or.inl (by simp [sending, afterSend, htee, Pc.inLoop])
    | sigpipe => exact Or.inr rfl
  | shutdown hpc => simp [hpc, Pc.inLoop] at hin
  | close hpc => simp [hpc, Pc.inLoop] at hin
  | write hpc htee' hrd hx => simp [htee] at htee'
  | writeSigpipe hpc htee' hrd => simp [htee] at htee'

/-- A process waits at its read of an empty pipe while somebody holds the write end. -/
theorem step_read_eq_none {q : κ} (hsrc : L.source = .pipe q) (hpc : p.pc = .read)
    (hrd : p.rd q = true) (hwr : hasWr q = true) (hempty : (w.pipe q).buf = []) (c : Choice) :
    L.step hasRd hasWr w p c = none := by
  cases c with
  | run k => simp [step, hpc, hsrc, Proc.read, hrd, Pipe.read, hempty, hwr]
  | write ok => simp only [step, hpc]

/-- **Progress.** A process whose loop has not returned takes a step when there is room to send,
unless it waits for its source. -/
theorem exists_step (hsize : 0 < L.size) (hfits : L.Fits p.pc) (hroom : w.Roomy)
    (hexited : p.pc ≠ .exited) (hkilled : p.pc ≠ .killed) (hreturned : p.pc ≠ .cleanup [])
    (hready : p.pc = .read → L.source.Ready hasWr w p) :
    ∃ c, (L.step hasRd hasWr w p c).isSome := by
  cases hpc : p.pc with
  | sleep => exact ⟨.run 0, by simp [step, hpc]⟩
  | read =>
    have hsource := hready hpc
    cases hsrc : L.source with
    | sock i =>
      rw [hsrc] at hsource
      obtain ⟨k, x, hx⟩ := exists_recv hsize hsource
      exact ⟨.run k, by simp [step, hpc, hsrc, hx]⟩
    | pipe q =>
      rw [hsrc] at hsource
      obtain ⟨k, x, hx⟩ := exists_read hsize hsource
      exact ⟨.run k, by simp [step, hpc, hsrc, hx]⟩
  | send buf rest =>
    obtain ⟨hrest, d, hd⟩ := hfits.send buf rest hpc
    obtain ⟨k, x, hx⟩ := exists_send (p := p) (b := buf) (i := d) hrest (hroom d)
    exact ⟨.run k, by simp [step, hpc, hd, hx]⟩
  | write buf =>
    obtain ⟨q, hq⟩ := hfits.write buf hpc
    exact ⟨.write false, step_write_isSome hpc hq⟩
  | cleanup ops =>
    cases ops with
    | nil => exact absurd hpc hreturned
    | cons o ops => exact ⟨.run 0, by cases o <;> simp [step, hpc]⟩
  | exited => exact absurd hpc hexited
  | killed => exact absurd hpc hkilled

end Loop

end Parikshan.Posix
