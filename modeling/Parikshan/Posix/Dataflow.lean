import Parikshan.Posix.Forwarding

/-!
# What flows through a forwarding loop

A loop from a socket to a socket and a pipe and a loop from the pipe to a socket meet in a bounded
queue that may refuse a write. The bytes in the hands of a process are a function of its program
counter, and a history of what it has read and of the outcome of its writes on the pipe, the
`Ledger`, accounts for all of them.

## Main definitions

* `Pc.inHand`, `Pc.unsent`: what a process has read and not yet dealt with.
* `Ledger`, `Loop.record`: the history of a loop that also writes to a pipe.
* `Accounted`: a process that feeds a pipe has lost nothing it read.
* `Delivered`: the bytes sent on the destination are the ones read, up to those in hand.

## Main results

* `Loop.step_accounted`, `Loop.step_delivered`: both are kept by every step.
* `Loop.step_tee`: the pipe gains what the ledger counts as kept.
* `Loop.step_drain`: a loop that empties a pipe neither loses, repeats nor reorders a byte.
-/

namespace Parikshan.Posix

/-! ### What a process holds -/

section Holdings

variable {ι κ : Type*}

/-- The process is in its loop. -/
def Pc.inLoop : Pc ι → Bool
  | .sleep => true
  | .read => true
  | .send _ _ => true
  | .write _ => true
  | .cleanup _ => false
  | .exited => false
  | .killed => false

/-- The chunk that the process has read and not yet dealt with. -/
def Pc.inHand : Pc ι → List (List Byte)
  | .send buf _ => [buf]
  | .write buf => [buf]
  | .sleep => []
  | .read => []
  | .cleanup _ => []
  | .exited => []
  | .killed => []

/-- The part of that chunk that has not been sent. -/
def Pc.unsent : Pc ι → List Byte
  | .send _ rest => rest
  | .sleep => []
  | .read => []
  | .write _ => []
  | .cleanup _ => []
  | .exited => []
  | .killed => []

/-- The part of a buffer still to be sent is its end. -/
def Pc.Cut (pc : Pc ι) : Prop := ∀ buf rest, pc = .send buf rest → rest <:+ buf

theorem Pc.unsent_of_not_inLoop {pc : Pc ι} (h : pc.inLoop = false) : pc.unsent = [] := by
  cases pc with
  | send buf rest => cases h
  | _ => rfl

/-- What has been sent of the chunk in hand precedes what has not. -/
theorem Pc.Cut.unsent_suffix {pc : Pc ι} (h : pc.Cut) : pc.unsent <:+ pc.inHand.flatten := by
  cases pc with
  | send buf rest => simpa [inHand, unsent] using h buf rest rfl
  | _ => exact List.nil_suffix

/-- A process in its loop has the sockets in `K` open. -/
def Proc.HoldsSocks (K : Set ι) (p : Proc ι κ) : Prop :=
  p.pc.inLoop = true → ∀ i ∈ K, p.socks i = true

/-- What a process that has left its loop still has open it is going to close. -/
def Proc.Closing (p : Proc ι κ) : Prop :=
  ∀ ops, p.pc = .cleanup ops → ∀ i, p.socks i = true → Op.close i ∈ ops

end Holdings

/-- What a loop has read, chunk by chunk, and the chunks it has tried to write to its pipe with
the outcome. -/
structure Ledger where
  received : List (List Byte) := []
  written : List (List Byte × Bool) := []
  deriving DecidableEq, Repr

namespace Ledger

/-- The chunks whose write on the pipe succeeded. -/
def kept (l : Ledger) : List (List Byte) := (l.written.filter Prod.snd).map Prod.fst

/-- Every chunk is kept wholly or not at all, and none twice. -/
theorem kept_sublist (l : Ledger) : l.kept.Sublist (l.written.map Prod.fst) :=
  List.filter_sublist.map _

/-- While no write fails, all chunks are kept. -/
theorem kept_eq {l : Ledger} (h : ∀ x ∈ l.written, x.2 = true) :
    l.kept = l.written.map Prod.fst := by
  rw [kept, List.filter_eq_self.mpr h]

end Ledger

namespace Loop

variable {ι κ : Type*} [DecidableEq ι] [DecidableEq κ] (L : Loop ι κ)

/-- The ledger after a step of the loop. -/
def record (hasRd : κ → Bool) (w : World ι κ) (p : Proc ι κ) (c : Choice) (l : Ledger) : Ledger :=
  match p.pc, c with
  | .read, .run k =>
    match L.source with
    | .sock i =>
      match p.recv i L.size k (w.sock i) with
      | some (.bytes bs, _) => { l with received := l.received ++ [bs] }
      | _ => l
    | .pipe _ => l
  | .write buf, .write ok =>
    match L.tee with
    | some q => { l with written := l.written ++ [(buf, ok && hasRd q)] }
    | none => l
  | _, _ => l

variable {L} {hasRd hasWr : κ → Bool} {w w' : World ι κ} {p p' : Proc ι κ} {c : Choice}

/-! ### What a step leaves alone -/

omit [DecidableEq ι] [DecidableEq κ] in
theorem afterRead_inHand (hdst : L.dest ≠ none) (r : Ret) :
    (L.afterRead r).inHand = match r with
      | .bytes bs => [bs]
      | _ => [] := by
  obtain ⟨d, hd⟩ := Option.ne_none_iff_exists'.mp hdst
  cases r <;> simp [afterRead, hd, Pc.inHand]

/-- A step of a loop keeps the sockets open, unless it leaves the loop. -/
theorem step_holdsSocks {K : Set ι} (hp : p.HoldsSocks K)
    (h : L.step hasRd hasWr w p c = some (w', p')) : p'.HoldsSocks K := by
  have hkeep (hin : p.pc.inLoop = true) (pc : Pc ι) : (p.goto pc).HoldsSocks K := fun _ => hp hin
  cases trans_of_step h with
  | wake hpc => exact hkeep (by rw [hpc]; rfl) _
  | recv hpc hsrc hr => exact hkeep (by rw [hpc]; rfl) _
  | read hpc hsrc hr => exact hkeep (by rw [hpc]; rfl) _
  | @send _ _ buf rest r _ hpc hdst hr =>
    have hin : p.pc.inLoop = true := by rw [hpc]; rfl
    cases r with
    | more rest => exact hkeep hin _
    | returned => exact hkeep hin _
    | sigpipe => exact fun hk => absurd hk (by simp [sending, Pc.inLoop])
  | shutdown hpc => exact fun hin => absurd hin (by simp [Pc.inLoop])
  | close hpc => exact fun hin => absurd hin (by simp [Pc.inLoop])
  | write hpc htee hrd hx => exact hkeep (by rw [hpc]; rfl) _
  | writeSigpipe hpc htee hrd => exact fun hk => absurd hk (by simp [Pc.inLoop])

/-- What a step of a loop can do to one socket. -/
theorem step_sock (j : ι) (h : L.step hasRd hasWr w p c = some (w', p')) :
    w'.sock j = w.sock j ∨
      (∃ len k r, (w.sock j).recv len k = some (r, w'.sock j)) ∨
      (∃ k buf rest r, L.dest = some j ∧ (w.sock j).send k buf rest = some (r, w'.sock j)) ∨
      ∃ ops, p.pc = .cleanup (.shutdown j :: ops) ∧ w'.sock j = (w.sock j).shutdown := by
  cases trans_of_step h with
  | @recv k i r s hpc hsrc hr =>
    by_cases hji : j = i
    · subst hji
      rw [World.setSock_sock_self]
      unfold Proc.recv at hr
      split_ifs at hr with ho
      · exact Or.inr (Or.inl ⟨_, _, _, hr⟩)
      · cases hr
        exact Or.inl rfl
    · exact Or.inl (World.setSock_sock_of_ne _ hji s)
  | @send k i buf rest r s hpc hdst hr =>
    by_cases hji : j = i
    · subst hji
      rw [World.setSock_sock_self]
      unfold Proc.send at hr
      split_ifs at hr with ho
      · exact Or.inr (Or.inr (Or.inl ⟨_, _, _, _, hdst, hr⟩))
      · cases hr
        exact Or.inl rfl
    · exact Or.inl (World.setSock_sock_of_ne _ hji s)
  | @shutdown k i ops hpc =>
    by_cases hji : j = i
    · subst hji
      rw [World.setSock_sock_self, Proc.shutdown]
      split_ifs with ho
      · exact Or.inr (Or.inr (Or.inr ⟨ops, hpc, rfl⟩))
      · exact Or.inl rfl
    · exact Or.inl (World.setSock_sock_of_ne _ hji _)
  | _ => exact Or.inl rfl

omit [DecidableEq κ] in
/-- A shutdown sends nothing. -/
theorem sent_setSock_shutdown (w : World ι κ) (p : Proc ι κ) (i j : ι) :
    ((w.setSock i (p.shutdown i (w.sock i))).sock j).sent = (w.sock j).sent := by
  rw [World.setSock_sock, Proc.shutdown]
  split_ifs with hj ho
  · rw [hj, Sock.shutdown_sent]
  · rw [hj]
  · rfl

/-- A step sends nothing on a socket that is not the destination. -/
theorem step_sent {j : ι} (hj : L.dest ≠ some j) (h : L.step hasRd hasWr w p c = some (w', p')) :
    (w'.sock j).sent = (w.sock j).sent := by
  rcases step_sock j h with heq | ⟨len, k, r, hr⟩ | ⟨k, buf, rest, r, hdst, -⟩ | ⟨ops, -, heq⟩
  · rw [heq]
  · rw [(Sock.recv_eq hr).1, Sock.sent, Sock.sent]
  · exact absurd hdst hj
  · rw [heq, Sock.shutdown_sent]

/-- A step does not close the peer's side of a connection. -/
theorem step_live {j : ι} (hj : (w.sock j).Live) (h : L.step hasRd hasWr w p c = some (w', p')) :
    (w'.sock j).Live := by
  rcases step_sock j h with heq | ⟨len, k, r, hr⟩ | ⟨k, buf, rest, r, -, hr⟩ | ⟨ops, -, heq⟩
  · rwa [heq]
  · obtain ⟨heq, herr⟩ := Sock.recv_eq hr
    rw [heq]
    exact ⟨hj.fin, hj.rst, herr.elim (fun he => he.trans hj.err) id⟩
  · obtain ⟨heq, herr⟩ := Sock.send_eq hr
    rw [heq]
    exact ⟨hj.fin, hj.rst, herr.elim (fun he => he.trans hj.err) id⟩
  · rw [heq]
    exact ⟨hj.fin, hj.rst, hj.err⟩

/-- A socket is shut down only by a process that has left its loop. -/
theorem step_shut {j : ι} (h : L.step hasRd hasWr w p c = some (w', p'))
    (hshut : (w'.sock j).shut = true) :
    (w.sock j).shut = true ∨ ∃ ops, p.pc = .cleanup (.shutdown j :: ops) := by
  rcases step_sock j h with heq | ⟨len, k, r, hr⟩ | ⟨k, buf, rest, r, -, hr⟩ | ⟨ops, hpc, -⟩
  · exact Or.inl (heq ▸ hshut)
  · rw [(Sock.recv_eq hr).1] at hshut
    exact Or.inl hshut
  · rw [(Sock.send_eq hr).1] at hshut
    exact Or.inl hshut
  · exact Or.inr ⟨ops, hpc⟩

/-- A socket on which nothing can be sent stays so. -/
theorem step_closed {j : ι} (hj : (w.sock j).Closed)
    (h : L.step hasRd hasWr w p c = some (w', p')) : (w'.sock j).Closed := by
  rcases step_sock j h with heq | ⟨len, k, r, hr⟩ | ⟨k, buf, rest, r, -, hr⟩ | ⟨ops, -, heq⟩
  · rwa [heq]
  · rwa [(Sock.recv_eq hr).1]
  · rwa [(Sock.send_eq hr).1]
  · rw [heq]
    exact Or.inl rfl

/-- A process opens no socket. -/
theorem step_socks {j : ι} (hj : p.socks j = false)
    (h : L.step hasRd hasWr w p c = some (w', p')) : p'.socks j = false := by
  cases trans_of_step h with
  | @send _ _ _ _ r =>
    cases r with
    | more rest => exact hj
    | returned => exact hj
    | sigpipe => rfl
  | @close _ i ops =>
    simp only [Function.update_apply]
    split_ifs
    · rfl
    · exact hj
  | writeSigpipe => rfl
  | _ => exact hj

/-- A loop that ends with closing everything that is open leaves no socket open. -/
theorem step_closing (hL : ∀ i, p.socks i = true → Op.close i ∈ L.cleanup) (hp : p.Closing)
    (h : L.step hasRd hasWr w p c = some (w', p')) : p'.Closing := by
  have hafter (r : Ret) : (p.goto (L.afterRead r)).Closing := by
    intro ops hops i hi
    cases r with
    | bytes bs => cases hd : L.dest <;> simp [afterRead, hd] at hops
    | eof =>
      cases hops
      exact hL i hi
    | error =>
      cases hops
      exact hL i hi
  cases trans_of_step h with
  | wake => exact fun ops hops => by cases hops
  | recv => exact hafter _
  | read => exact hafter _
  | @send _ _ _ _ r =>
    intro ops hops
    cases r with
    | more rest => cases hops
    | returned => cases ht : L.tee <;> simp [sending, afterSend, ht] at hops
    | sigpipe => cases hops
  | shutdown hpc =>
    intro ops hops i hi
    cases hops
    have hmem := hp _ hpc i hi
    simpa using hmem
  | @close _ j ops hpc =>
    intro ops' hops i hi
    cases hops
    simp only [Function.update_apply] at hi
    split_ifs at hi with hij
    have hmem := hp _ hpc i hi
    simpa [hij] using hmem
  | write => exact fun ops hops => by cases hops
  | writeSigpipe => exact fun ops hops => by cases hops

/-- A process without sockets that has nothing in hand touches nothing. -/
theorem step_blind {i : ι} (hsrc : L.source = .sock i) (hs : ∀ j, p.socks j = false)
    (hhand : p.pc.inHand = []) (h : L.step hasRd hasWr w p c = some (w', p')) :
    w'.sock = w.sock ∧ w'.pipe = w.pipe ∧ p'.pc.inHand = [] ∧
      ∀ l, L.record hasRd w p c l = l := by
  have hself (s : Sock) (j : ι) (hj : s = w.sock j) : (w.setSock j s).sock = w.sock := by
    rw [hj]
    exact Function.update_eq_self _ _
  cases trans_of_step h with
  | wake hpc => exact ⟨rfl, rfl, rfl, fun l => by simp [record, hpc]⟩
  | @recv _ j r s hpc hsrc' hr =>
    rw [Proc.recv, hs j, if_neg (by simp)] at hr
    obtain ⟨rfl, rfl⟩ := Prod.mk.inj (Option.some.inj hr)
    exact ⟨hself _ j rfl, rfl, rfl, fun l => by simp [record, hpc, hsrc', Proc.recv, hs j]⟩
  | read hpc hsrc' hr => simp [hsrc] at hsrc'
  | send hpc => simp [hpc, Pc.inHand] at hhand
  | @shutdown _ j ops hpc =>
    refine ⟨hself _ j (by simp [Proc.shutdown, hs j]), rfl, rfl, fun l => by simp [record, hpc]⟩
  | close hpc => exact ⟨rfl, rfl, rfl, fun l => by simp [record, hpc]⟩
  | write hpc => simp [hpc, Pc.inHand] at hhand
  | writeSigpipe hpc => simp [hpc, Pc.inHand] at hhand

/-- A step changes no pipe but the source and the tee of the loop. -/
theorem step_pipe {q : κ} (hsrc : L.source ≠ .pipe q) (htee : L.tee ≠ some q)
    (h : L.step hasRd hasWr w p c = some (w', p')) : w'.pipe q = w.pipe q := by
  cases trans_of_step h with
  | @read _ q' _ x hpc hsrc' hr =>
    have hne : q ≠ q' := by
      rintro rfl
      exact hsrc hsrc'
    exact World.setPipe_pipe_of_ne _ hne x
  | @write _ q' _ x hpc htee' hrd hx =>
    have hne : q ≠ q' := by
      rintro rfl
      exact htee htee'
    exact World.setPipe_pipe_of_ne _ hne x
  | _ => rfl

/-- Only a loop that reads from a pipe takes bytes from it. -/
theorem step_pipe_length {q : κ} (hsrc : L.source ≠ .pipe q)
    (h : L.step hasRd hasWr w p c = some (w', p')) :
    (w.pipe q).buf.length ≤ (w'.pipe q).buf.length := by
  cases trans_of_step h with
  | @read _ q' _ x hpc hsrc' hr =>
    have hne : q ≠ q' := by
      rintro rfl
      exact hsrc hsrc'
    rw [World.setPipe_pipe_of_ne _ hne x]
  | @write ok q' buf x hpc htee hrd hx =>
    rw [World.setPipe_pipe]
    split_ifs with hq
    · subst hq
      unfold Proc.write at hx
      split_ifs at hx
      · cases ok with
        | true => rw [Pipe.write_true hx, List.length_append]; omega
        | false => rw [Pipe.write_false, Option.some.injEq] at hx; rw [hx]
      · rw [Option.some.inj hx]
    · exact le_rfl
  | _ => exact le_rfl

/-! ### Leaving the loop -/

/-- A process that has left its loop goes on with its cleanup. -/
theorem step_cleanup (hin : p.pc.inLoop = false)
    (h : L.step hasRd hasWr w p c = some (w', p')) :
    ∃ op ops, p.pc = .cleanup (op :: ops) ∧ p'.pc = .cleanup ops := by
  cases trans_of_step h with
  | shutdown hpc => exact ⟨_, _, hpc, rfl⟩
  | close hpc => exact ⟨_, _, hpc, rfl⟩
  | wake hpc => simp [hpc, Pc.inLoop] at hin
  | recv hpc => simp [hpc, Pc.inLoop] at hin
  | read hpc => simp [hpc, Pc.inLoop] at hin
  | send hpc => simp [hpc, Pc.inLoop] at hin
  | write hpc => simp [hpc, Pc.inLoop] at hin
  | writeSigpipe hpc => simp [hpc, Pc.inLoop] at hin

/-- A process that has left its loop does not come back. -/
theorem step_ended (hin : p.pc.inLoop = false) (h : L.step hasRd hasWr w p c = some (w', p')) :
    p'.pc.inLoop = false ∧ p'.pc ≠ .killed := by
  obtain ⟨op, ops, -, hpc⟩ := step_cleanup hin h
  simp [hpc, Pc.inLoop]

/-- A process leaves its loop when a signal kills it, because it can send nothing on the
destination or nobody reads its pipe, or when there is nothing more to read. -/
theorem step_leaves {K : Set ι} (hL : L.Within K) (hin : p.pc.inLoop = true)
    (hs : p.HoldsSocks K) (hp : p.HoldsPipes) (h : L.step hasRd hasWr w p c = some (w', p')) :
    p'.pc.inLoop = true ∨
      (p'.pc = .killed ∧ ((∃ d, L.dest = some d ∧ (w.sock d).Closed) ∨
        ∃ q, L.tee = some q ∧ hasRd q = false)) ∨
      (p'.pc = .cleanup L.cleanup ∧
        ((∃ i, L.source = .sock i ∧ ((w.sock i).Live → (w.sock i).shut = true)) ∨
          ∃ q, L.source = .pipe q ∧ hasWr q = false)) := by
  have hgo (bs : List Byte) : (L.afterRead (.bytes bs)).inLoop = true := by
    cases hd : L.dest <;> simp [afterRead, hd, Pc.inLoop]
  cases trans_of_step h with
  | wake hpc => exact Or.inl rfl
  | @recv _ i r s hpc hsrc hr =>
    rw [Proc.recv, if_pos (hs hin i (hL.source i hsrc))] at hr
    have hended (hnb : ∀ bs, r ≠ .bytes bs) : (w.sock i).Live → (w.sock i).shut = true := by
      intro hl
      obtain ⟨-, hcause, -⟩ := Sock.recv_end hnb hr
      simpa [hl.fin, hl.rst, hl.err] using hcause
    cases r with
    | bytes bs => exact Or.inl (hgo bs)
    | eof => exact Or.inr (Or.inr ⟨rfl, Or.inl ⟨i, hsrc, hended (by simp)⟩⟩)
    | error => exact Or.inr (Or.inr ⟨rfl, Or.inl ⟨i, hsrc, hended (by simp)⟩⟩)
  | @read _ q r x hpc hsrc hr =>
    rw [Proc.read, if_pos ((hp (by simp [hpc]) (by simp [hpc])).1 q)] at hr
    cases hq : hasWr q with
    | true =>
      rw [hq] at hr
      obtain ⟨bs, rfl, -⟩ := Pipe.read_bytes hr
      exact Or.inl (hgo bs)
    | false =>
      cases r with
      | bytes bs => exact Or.inl (hgo bs)
      | eof => exact Or.inr (Or.inr ⟨rfl, Or.inr ⟨q, hsrc, hq⟩⟩)
      | error => exact Or.inr (Or.inr ⟨rfl, Or.inr ⟨q, hsrc, hq⟩⟩)
  | @send k d buf rest r s hpc hdst hr =>
    rw [Proc.send, if_pos (hs hin d (hL.dest d hdst))] at hr
    cases r with
    | more rest' => exact Or.inl rfl
    | returned => exact Or.inl (by cases ht : L.tee <;> simp [sending, afterSend, ht, Pc.inLoop])
    | sigpipe =>
      refine Or.inr (Or.inl ⟨rfl, Or.inl ⟨d, hdst, ?_⟩⟩)
      by_contra hopen
      rw [Sock.Closed, not_or, Bool.not_eq_true, Bool.not_eq_true] at hopen
      obtain ⟨-, -, hcase⟩ := Sock.send_open hopen.1 hopen.2 hr
      rcases hcase with ⟨hk, -⟩ | ⟨hk, -⟩ <;> cases hk
  | shutdown hpc => simp [hpc, Pc.inLoop] at hin
  | close hpc => simp [hpc, Pc.inLoop] at hin
  | write hpc htee hrd hx => exact Or.inl rfl
  | @writeSigpipe ok q _ hpc htee hrd =>
    exact Or.inr (Or.inl ⟨rfl, Or.inr ⟨q, htee, hrd⟩⟩)

end Loop

/-! ### Feeding a pipe -/

/-- Of what the process has read it has tried to write all to the pipe but the chunk in hand; a
process killed by a signal has lost that one. -/
structure Accounted {ι κ : Type*} (p : Proc ι κ) (l : Ledger) : Prop where
  chunks : p.pc ≠ .killed → l.received = l.written.map Prod.fst ++ p.pc.inHand
  prior : l.written.map Prod.fst <+: l.received

/-- What has been sent on `x`, followed by what is still to be sent of the chunk in hand, is what
the process has read. -/
structure Delivered {ι κ : Type*} (x : Sock) (p : Proc ι κ) (l : Ledger) : Prop where
  cut : p.pc.Cut
  sent : x.sent ++ p.pc.unsent = l.received.flatten

theorem Accounted.of_eq {ι κ : Type*} {p : Proc ι κ} {l : Ledger}
    (hl : l.received = l.written.map Prod.fst ++ p.pc.inHand) : Accounted p l :=
  ⟨fun _ => hl, hl ▸ List.prefix_append _ _⟩

theorem Delivered.of_eq {ι κ : Type*} {x : Sock} {p : Proc ι κ} {l : Ledger}
    (hpc : ∀ buf rest, p.pc ≠ .send buf rest) (h : x.sent = l.received.flatten) :
    Delivered x p l := by
  refine ⟨fun buf rest hs => absurd hs (hpc buf rest), ?_⟩
  have hun : p.pc.unsent = [] := by
    cases hp : p.pc with
    | send buf rest => exact absurd hp (hpc buf rest)
    | _ => rfl
  rw [hun, List.append_nil, h]

/-- What has been tried on the pipe, the chunk in hand and what has been sent. -/
theorem Delivered.sent_eq {ι κ : Type*} {x : Sock} {p : Proc ι κ} {l : Ledger}
    (hd : Delivered x p l) (ha : Accounted p l) (hk : p.pc ≠ .killed) :
    x.sent ++ p.pc.unsent = (l.written.map Prod.fst).flatten ++ p.pc.inHand.flatten ∧
      (l.written.map Prod.fst).flatten <+: x.sent := by
  have hsent : x.sent ++ p.pc.unsent =
      (l.written.map Prod.fst).flatten ++ p.pc.inHand.flatten := by
    rw [hd.sent, ha.chunks hk, List.flatten_append]
  obtain ⟨done, hdone⟩ := hd.cut.unsent_suffix
  refine ⟨hsent, ?_⟩
  rw [← hdone, ← List.append_assoc] at hsent
  rw [List.append_cancel_right hsent]
  exact List.prefix_append _ _

namespace Loop

variable {ι κ : Type*} [DecidableEq ι] [DecidableEq κ] {L : Loop ι κ} {hasRd hasWr : κ → Bool}
  {w w' : World ι κ} {p p' : Proc ι κ} {c : Choice} {l : Ledger} {i d : ι} {q : κ}

omit [DecidableEq ι] [DecidableEq κ] in
/-- Only a read that returns data and a write on the pipe are recorded. -/
theorem record_eq (h : ∀ buf, p.pc ≠ .write buf) (hread : p.pc ≠ .read) :
    L.record hasRd w p c l = l := by
  unfold record
  split
  · next hpc => exact absurd hpc hread
  · next hpc => exact absurd hpc (h _)
  · rfl

/-- A step of a loop that feeds a pipe loses no chunk, unless it kills the process. -/
theorem step_accounted (hsrc : L.source = .sock i) (hdst : L.dest = some d) (htee : L.tee = some q)
    (hl : Accounted p l) (h : L.step hasRd hasWr w p c = some (w', p')) :
    Accounted p' (L.record hasRd w p c l) := by
  cases trans_of_step h with
  | wake hpc =>
    have hchunks := hl.chunks (by simp [hpc])
    rw [record_eq (by simp [hpc]) (by simp [hpc])]
    exact .of_eq (by simpa [hpc, Pc.inHand] using hchunks)
  | @recv k j r s hpc hsrc' hr =>
    have hchunks := hl.chunks (by simp [hpc])
    have hhand := afterRead_inHand (L := L) (by simp [hdst]) r
    simp only [hpc, Pc.inHand, List.append_nil] at hchunks
    cases r with
    | bytes bs => exact .of_eq (by simp [record, hpc, hsrc', hr, hhand, hchunks])
    | eof => exact .of_eq (by simp [record, hpc, hsrc', hr, hhand, hchunks])
    | error => exact .of_eq (by simp [record, hpc, hsrc', hr, hhand, hchunks])
  | read hpc hsrc' hr => simp [hsrc] at hsrc'
  | @send k j buf rest r s hpc hdst' hr =>
    have hchunks := hl.chunks (by simp [hpc])
    rw [record_eq (by simp [hpc]) (by simp [hpc])]
    rw [hpc, Pc.inHand] at hchunks
    cases r with
    | more rest' => exact .of_eq hchunks
    | returned => exact .of_eq (by simpa [sending, afterSend, htee, Pc.inHand] using hchunks)
    | sigpipe => exact ⟨fun hk => absurd rfl hk, hl.prior⟩
  | shutdown hpc =>
    have hchunks := hl.chunks (by simp [hpc])
    rw [record_eq (by simp [hpc]) (by simp [hpc])]
    exact .of_eq (by simpa [hpc, Pc.inHand] using hchunks)
  | close hpc =>
    have hchunks := hl.chunks (by simp [hpc])
    rw [record_eq (by simp [hpc]) (by simp [hpc])]
    exact .of_eq (by simpa [hpc, Pc.inHand] using hchunks)
  | @write ok _ buf x hpc htee' hrd hx =>
    have hchunks := hl.chunks (by simp [hpc])
    exact .of_eq (by simp [record, hpc, htee, hchunks, Pc.inHand])
  | @writeSigpipe ok _ buf hpc htee' hrd =>
    have hchunks := hl.chunks (by simp [hpc])
    exact .of_eq (by simp [record, hpc, htee, hchunks, Pc.inHand])

/-- The pipe gains what the ledger counts as kept. -/
theorem step_tee (hsrc : L.source = .sock i) (htee : L.tee = some q)
    (h : L.step hasRd hasWr w p c = some (w', p')) :
    ∃ bs, (L.record hasRd w p c l).kept.flatten = l.kept.flatten ++ bs ∧
      (w'.pipe q).buf = (w.pipe q).buf ++ bs := by
  have hkept (hk : (L.record hasRd w p c l).written = l.written) (hw : w'.pipe q = w.pipe q) :
      ∃ bs, (L.record hasRd w p c l).kept.flatten = l.kept.flatten ++ bs ∧
        (w'.pipe q).buf = (w.pipe q).buf ++ bs :=
    ⟨[], by rw [Ledger.kept, hk, List.append_nil, Ledger.kept], by rw [hw, List.append_nil]⟩
  cases trans_of_step h with
  | wake hpc => exact hkept (by rw [record_eq (by simp [hpc]) (by simp [hpc])]) rfl
  | @recv k j r s hpc hsrc' hr =>
    exact hkept (by cases r <;> simp [record, hpc, hsrc', hr]) rfl
  | read hpc hsrc' hr => simp [hsrc] at hsrc'
  | send hpc hdst hr => exact hkept (by rw [record_eq (by simp [hpc]) (by simp [hpc])]) rfl
  | shutdown hpc => exact hkept (by rw [record_eq (by simp [hpc]) (by simp [hpc])]) rfl
  | close hpc => exact hkept (by rw [record_eq (by simp [hpc]) (by simp [hpc])]) rfl
  | @write ok r buf x hpc htee' hrd hx =>
    obtain rfl : q = r := Option.some.inj (htee.symm.trans htee')
    have hwritten : (L.record hasRd w p (.write ok) l).written = l.written ++ [(buf, ok)] := by
      simp [record, hpc, htee, hrd]
    rw [World.setPipe_pipe_self, Ledger.kept, hwritten]
    cases ok with
    | true =>
      have hbuf : x.buf = (w.pipe q).buf ++ buf := by
        unfold Proc.write at hx
        split_ifs at hx
        · exact Pipe.write_true hx
        · contradiction
      exact ⟨buf, by simp [Ledger.kept], hbuf⟩
    | false =>
      have hsame : x = w.pipe q := by
        unfold Proc.write at hx
        split_ifs at hx
        · simpa using hx.symm
        · simpa using hx.symm
      exact ⟨[], by simp [Ledger.kept], by rw [hsame, List.append_nil]⟩
  | @writeSigpipe ok r buf hpc htee' hrd =>
    obtain rfl : q = r := Option.some.inj (htee.symm.trans htee')
    have hwritten : (L.record hasRd w p (.write ok) l).written = l.written ++ [(buf, false)] := by
      simp [record, hpc, htee, hrd]
    exact ⟨[], by simp [Ledger.kept, hwritten], (List.append_nil _).symm⟩

/-! ### Sending what was read -/

omit [DecidableEq ι] [DecidableEq κ] in
/-- One step of a `send` on an open destination moves bytes from the hands of the process to the
destination. -/
theorem send_moves {k : ℕ} {buf rest : List Byte} {r : Sock.Sending} {s t : Sock}
    (hopen : ¬ s.Closed) (hcut : rest <:+ buf) (hr : s.send k buf rest = some (r, t)) :
    t.sent ++ (L.sending p buf r).pc.unsent = s.sent ++ rest ∧ (L.sending p buf r).pc.Cut := by
  rw [Sock.Closed, not_or, Bool.not_eq_true, Bool.not_eq_true] at hopen
  obtain ⟨room, rfl, ⟨rfl, hk⟩ | ⟨rfl, hk⟩⟩ := Sock.send_open hopen.1 hopen.2 hr
  · rw [Sock.sent_append_bytes, hk]
    refine ⟨?_, ?_⟩
    · cases ht : L.tee <;> simp [sending, afterSend, ht, Pc.unsent]
    · intro buf' rest' hpc
      cases ht : L.tee <;> simp [sending, afterSend, ht] at hpc
  · rw [Sock.sent_append_bytes]
    refine ⟨by simp [sending, Pc.unsent], ?_⟩
    intro buf' rest' hpc
    obtain ⟨rfl, rfl⟩ := by simpa [sending] using hpc
    exact (List.drop_suffix k rest).trans hcut

/-- A step of a loop whose destination is open sends what the loop has read, in order. -/
theorem step_delivered {K : Set ι} (hsrc : L.source = .sock i) (hdst : L.dest = some d)
    (hne : d ≠ i) (hd : d ∈ K) (hs : p.HoldsSocks K)
    (hopen : p.pc.inLoop = true → ¬ (w.sock d).Closed)
    (hl : Delivered (w.sock d) p l) (h : L.step hasRd hasWr w p c = some (w', p')) :
    Delivered (w'.sock d) p' (L.record hasRd w p c l) := by
  have hsent := hl.sent
  cases trans_of_step h with
  | wake hpc =>
    rw [record_eq (by simp [hpc]) (by simp [hpc])]
    exact .of_eq (by simp) (by simpa [hpc, Pc.unsent] using hsent)
  | @recv k j r s hpc hsrc' hr =>
    obtain rfl : i = j := Source.sock.inj (hsrc.symm.trans hsrc')
    simp only [hpc, Pc.unsent, List.append_nil] at hsent
    cases r with
    | bytes bs =>
      refine ⟨fun buf rest hpc' => ?_, ?_⟩
      · obtain ⟨rfl, rfl⟩ := by simpa [afterRead, hdst] using hpc'
        exact List.suffix_rfl
      · rw [World.setSock_sock_of_ne _ hne]
        simp [record, hpc, hsrc, hr, afterRead, hdst, Pc.unsent, hsent]
    | eof =>
      refine .of_eq (by simp [afterRead]) ?_
      rw [World.setSock_sock_of_ne _ hne]
      simpa [record, hpc, hsrc, hr] using hsent
    | error =>
      refine .of_eq (by simp [afterRead]) ?_
      rw [World.setSock_sock_of_ne _ hne]
      simpa [record, hpc, hsrc, hr] using hsent
  | read hpc hsrc' hr => simp [hsrc] at hsrc'
  | @send k j buf rest r s hpc hdst' hr =>
    obtain rfl : d = j := Option.some.inj (hdst.symm.trans hdst')
    have hin : p.pc.inLoop = true := by rw [hpc]; rfl
    rw [Proc.send, if_pos (hs hin d hd)] at hr
    obtain ⟨hmove, hcut⟩ := send_moves (L := L) (p := p) (hopen hin) (hl.cut buf rest hpc) hr
    rw [record_eq (by simp [hpc]) (by simp [hpc])]
    rw [hpc, Pc.unsent] at hsent
    exact ⟨hcut, by rw [World.setSock_sock_self, hmove, hsent]⟩
  | @shutdown k j ops hpc =>
    rw [record_eq (by simp [hpc]) (by simp [hpc])]
    refine .of_eq (by simp) ?_
    rw [sent_setSock_shutdown, ← hsent, hpc, Pc.unsent, List.append_nil]
  | close hpc =>
    rw [record_eq (by simp [hpc]) (by simp [hpc])]
    exact .of_eq (by simp) (by simpa [hpc, Pc.unsent] using hsent)
  | @write ok r buf x hpc htee' hrd hx =>
    refine .of_eq (by simp) ?_
    simpa [record, hpc, htee', Pc.unsent] using hsent
  | @writeSigpipe ok r buf hpc htee' hrd =>
    refine .of_eq (by simp) ?_
    simpa [record, hpc, htee', Pc.unsent] using hsent

/-- A step of a loop that empties a pipe whose write end is held moves bytes from the pipe to the
hands of the process and from there to the destination: none is lost, repeated or reordered. -/
theorem step_drain {K : Set ι} (hsrc : L.source = .pipe q) (hdst : L.dest = some d)
    (htee : L.tee = none) (hd : d ∈ K) (hs : p.HoldsSocks K) (hp : p.HoldsPipes)
    (hwr : hasWr q = true)
    (hopen : p.pc.inLoop = true → ¬ (w.sock d).Closed) (hcut : p.pc.Cut)
    (h : L.step hasRd hasWr w p c = some (w', p')) :
    (w'.sock d).sent ++ p'.pc.unsent ++ (w'.pipe q).buf =
      (w.sock d).sent ++ p.pc.unsent ++ (w.pipe q).buf ∧ p'.pc.Cut := by
  cases trans_of_step h with
  | wake hpc => exact ⟨by simp [hpc, Pc.unsent], fun _ _ hpc' => by cases hpc'⟩
  | recv hpc hsrc' hr => simp [hsrc] at hsrc'
  | @read k r ret x hpc hsrc' hr =>
    obtain rfl : q = r := Source.pipe.inj (hsrc.symm.trans hsrc')
    rw [Proc.read, if_pos ((hp (by simp [hpc]) (by simp [hpc])).1 q), hwr] at hr
    obtain ⟨bs, rfl, -, hbuf⟩ := Pipe.read_bytes hr
    refine ⟨?_, fun buf rest hpc' => ?_⟩
    · simp [afterRead, hdst, hpc, Pc.unsent, hbuf]
    · obtain ⟨rfl, rfl⟩ := by simpa [afterRead, hdst] using hpc'
      exact List.suffix_rfl
  | @send k j buf rest r s hpc hdst' hr =>
    obtain rfl : d = j := Option.some.inj (hdst.symm.trans hdst')
    have hin : p.pc.inLoop = true := by rw [hpc]; rfl
    rw [Proc.send, if_pos (hs hin d hd)] at hr
    obtain ⟨hmove, hcut'⟩ := send_moves (L := L) (p := p) (hopen hin) (hcut buf rest hpc) hr
    refine ⟨?_, hcut'⟩
    rw [World.setSock_sock_self, World.setSock_pipe, hmove, hpc, Pc.unsent]
  | @shutdown k j ops hpc =>
    refine ⟨?_, fun _ _ hpc' => by cases hpc'⟩
    rw [sent_setSock_shutdown, hpc]
    rfl
  | close hpc => exact ⟨by simp [hpc, Pc.unsent], fun _ _ hpc' => by cases hpc'⟩
  | write hpc htee' => simp [htee] at htee'
  | writeSigpipe hpc htee' => simp [htee] at htee'

end Loop

end Parikshan.Posix
