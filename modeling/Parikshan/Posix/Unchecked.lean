import Parikshan.Posix.Relay

/-!
# Sends whose result is not looked at

A process that sends a stream chunk by chunk and does not look at what `send` returns loses bytes
when the connection is closed under it: the rest of the chunk of which a part has been copied, and
the chunk on which a pending error is reported. On the next chunk `SIGPIPE` ends the process. What
has been sent is a prefix of the stream at any time, so that all that can be lost is its end, and of
this not more than two chunks.

## Main definitions

* `Sock.slack`: the bytes by which what has been sent may be short of the stream.
* `Sock.Fed`: a socket between two calls of `send`.
* `Sock.Sends`: a socket in a call of `send`.
* `Sock.Later`: what other processes and the peer can do to a socket.
* `Sock.Silent`: a connection on which a `recv` waits.
* `Sock.budget`: the bytes sent and those that the kernel would still accept.

## Main results

* `Sock.Sends.more`, `Sock.Sends.returned`, `Sock.Sends.killed`: one step of `send`.
* `Sock.Fed.later`, `Sock.Sends.later`: what goes on beside it.
* `Sock.silent_of_recv`, `Sock.room_of_send`: what a call waits for.
* `Sock.send_budget`, `Sock.peer_budget`: the send buffer bounds what is sent.
-/

namespace Parikshan.Posix

namespace Sock

/-- The bytes by which what has been sent may be short of a stream that is sent in chunks of at
most `n` bytes: none while the connection is open, the rest of a chunk once it is closed, and
another chunk once the error of a reset has been reported. -/
def slack (n : ℕ) (x : Sock) : ℕ :=
  if x.shut || x.rst then if x.rst && !x.err then n - 1 + n else n - 1 else 0

/-- A socket to which the stream `g` has been sent in chunks of at most `n` bytes. -/
structure Fed (n : ℕ) (x : Sock) (g : List Byte) : Prop where
  sent : x.sent <+: g
  lost : g.length ≤ x.sent.length + x.slack n
  error : x.err = true → x.rst = true

/-- A socket to which `g` has been sent, in a call of `send` of the chunk `buffer` with `rest` still
to be copied: nothing of the chunk has been copied, or all before `rest` has. -/
structure Sends (n : ℕ) (x : Sock) (g buffer rest : List Byte) : Prop where
  chunk : buffer.length ≤ n
  pending : rest ≠ []
  copied : rest = buffer ∧ Fed n x g ∨
    rest.length < buffer.length ∧ x.sent ++ rest = g ++ buffer ∧ (x.err = true → x.rst = true)

/-- What a socket can become while its sender does something else. -/
structure Later (x y : Sock) : Prop where
  sent : y.sent = x.sent
  shut : x.shut = true → y.shut = true
  rst : x.rst = true → y.rst = true
  reported : x.rst = true → x.err = false → y.err = false
  error : (x.err = true → x.rst = true) → y.err = true → y.rst = true

section Slack

variable {n : ℕ} {x y : Sock}

theorem slack_open (hx : ¬ x.Closed) : x.slack n = 0 := by
  simp only [Closed, not_or, Bool.not_eq_true] at hx
  simp [slack, hx.1, hx.2]

theorem le_slack (hx : x.Closed) : n - 1 ≤ x.slack n := by
  have hcond : (x.shut || x.rst) = true := by simpa [Closed] using hx
  simp only [slack, hcond, if_true]
  split_ifs <;> omega

theorem slack_reported (hrst : x.rst = true) (herr : x.err = false) :
    x.slack n = n - 1 + n := by
  simp [slack, hrst, herr]

theorem slack_pending (herr : x.err = true) : x.slack n ≤ n - 1 := by
  simp only [slack, herr, Bool.not_true, Bool.and_false, Bool.false_eq_true, if_false]
  split_ifs <;> omega

theorem slack_le (n : ℕ) (x : Sock) : x.slack n ≤ n - 1 + n := by
  unfold slack
  split_ifs <;> omega

theorem Later.closed (h : Later x y) (hx : x.Closed) : y.Closed := hx.imp h.shut h.rst

theorem Later.slack (h : Later x y) (n : ℕ) : x.slack n ≤ y.slack n := by
  by_cases hx : x.Closed
  · by_cases hreported : x.rst = true ∧ x.err = false
    · rw [slack_reported hreported.1 hreported.2,
        slack_reported (h.rst hreported.1) (h.reported hreported.1 hreported.2)]
    · have hle : x.slack n ≤ n - 1 := by
        have hcond : (x.rst && !x.err) = false := by
          simpa [Bool.and_eq_true] using hreported
        simp only [Sock.slack, hcond, Bool.false_eq_true, if_false]
        split_ifs <;> omega
      exact hle.trans (le_slack (h.closed hx))
  · rw [slack_open hx]
    exact Nat.zero_le _

/-- What the peer does. -/
theorem Later.of_peer {e : Peer} (h : x.peer e = some y) : Later x y := by
  have hsent : y.sent = x.sent := by rw [Sock.sent, (peer_eq h).1, Sock.sent]
  have hshut : x.shut = true → y.shut = true := by
    rw [(peer_eq h).2]
    exact id
  cases e with
  | drain k =>
    obtain rfl := Option.some.inj h
    exact ⟨hsent, hshut, id, fun _ => id, id⟩
  | reset =>
    simp only [Sock.peer] at h
    split_ifs at h with hrst
    obtain rfl := Option.some.inj h
    exact ⟨hsent, hshut, fun _ => rfl, fun h => absurd h hrst, fun _ _ => rfl⟩
  | _ =>
    simp only [Sock.peer] at h
    split_ifs at h <;> obtain rfl := Option.some.inj h <;>
      exact ⟨hsent, hshut, id, fun _ => id, id⟩

/-- What a `recv` does. -/
theorem Later.of_recv {len k : ℕ} {r : Ret} (h : x.recv len k = some (r, y)) : Later x y := by
  obtain ⟨heq, herr⟩ := recv_eq h
  have hkeep {b : Bool} (hb : x.err = b) : y.err = true → b = true := by
    rcases herr with herr | herr
    · rw [herr, hb]
      exact id
    · rw [herr]
      exact fun h => absurd h (by simp)
  refine ⟨by rw [heq]; rfl, by rw [heq]; exact id, by rw [heq]; exact id, fun _ hx => ?_,
    fun hx hy => ?_⟩
  · exact Bool.eq_false_iff.mpr fun hy => absurd (hkeep hx hy) (by simp)
  · rw [heq]
    exact hx (hkeep rfl hy)

/-- What a `shutdown` does. -/
theorem Later.of_shutdown (x : Sock) : Later x x.shutdown :=
  ⟨shutdown_sent x, fun _ => rfl, id, fun _ => id, id⟩

theorem Later.refl (x : Sock) : Later x x := ⟨rfl, id, id, fun _ => id, id⟩

end Slack

section Sends

variable {n k : ℕ} {x y : Sock} {g buffer rest rest' : List Byte} {r : Sending}

theorem Fed.of_fresh (hx : x.Fresh) : Fed n x [] := by
  refine ⟨by rw [hx.sent], by rw [hx.sent]; exact Nat.zero_le _, fun herr => ?_⟩
  rw [hx.err] at herr
  cases herr

theorem Fed.later (hx : Fed n x g) (h : Later x y) : Fed n y g :=
  ⟨h.sent ▸ hx.sent, by
    rw [h.sent]
    exact hx.lost.trans (Nat.add_le_add_left (h.slack n) _), h.error hx.error⟩

/-- While the connection is open, all of the stream has been sent. -/
theorem Fed.eq (hx : Fed n x g) (hopen : ¬ x.Closed) : x.sent = g := by
  refine hx.sent.eq_of_length_le ?_
  have hlost := hx.lost
  rwa [slack_open hopen, Nat.add_zero] at hlost

theorem Fed.sends (hx : Fed n x g) (hlen : buffer.length ≤ n) (hne : buffer ≠ []) :
    Sends n x g buffer buffer :=
  ⟨hlen, hne, Or.inl ⟨rfl, hx⟩⟩

theorem Sends.later (hx : Sends n x g buffer rest) (h : Later x y) : Sends n y g buffer rest := by
  refine ⟨hx.chunk, hx.pending, hx.copied.imp (fun hs => ⟨hs.1, hs.2.later h⟩) fun hs => ?_⟩
  exact ⟨hs.1, by rw [h.sent]; exact hs.2.1, h.error hs.2.2⟩

theorem Sends.ne_nil (hx : Sends n x g buffer rest) : buffer ≠ [] := by
  rcases hx.copied with ⟨rfl, -⟩ | ⟨hlt, -, -⟩
  · exact hx.pending
  · exact List.length_pos_iff.mp (Nat.zero_lt_of_lt hlt)

/-- In a call, what has been sent is a part of the stream with the chunk. -/
theorem Sends.sent (hx : Sends n x g buffer rest) : x.sent <+: g ++ buffer := by
  rcases hx.copied with ⟨-, hfed⟩ | ⟨-, heq, -⟩
  · exact hfed.sent.trans (List.prefix_append g buffer)
  · exact ⟨rest, heq⟩

/-- In a call, not more is missing than before it. -/
theorem Sends.lost (hx : Sends n x g buffer rest) : g.length ≤ x.sent.length + x.slack n := by
  rcases hx.copied with ⟨-, hfed⟩ | ⟨hlt, heq, -⟩
  · exact hfed.lost
  · have hlen := congrArg List.length heq
    rw [List.length_append, List.length_append] at hlen
    omega

theorem Sends.error (hx : Sends n x g buffer rest) (herr : x.err = true) : x.rst = true := by
  rcases hx.copied with ⟨-, hfed⟩ | ⟨-, -, hrst⟩
  · exact hfed.error herr
  · exact hrst herr

/-- On an open connection, what has been sent is all before the rest. -/
theorem Sends.eq (hx : Sends n x g buffer rest) (hopen : ¬ x.Closed) :
    x.sent ++ rest = g ++ buffer := by
  rcases hx.copied with ⟨rfl, hfed⟩ | ⟨-, heq, -⟩
  · rw [hfed.eq hopen]
  · exact heq

/-- The three ways in which a step of `send` on a closed connection returns. -/
theorem send_closed_cases (hx : x.Closed) (h : x.send k buffer rest = some (r, y)) :
    rest.length < buffer.length ∧ r = .returned ∧ y = x ∨
      ¬ rest.length < buffer.length ∧ x.err = true ∧ r = .returned ∧ y = { x with err := false } ∨
      ¬ rest.length < buffer.length ∧ x.err = false ∧ r = .sigpipe ∧ y = x := by
  have hcond : (x.shut || x.rst) = true := by simpa [Closed] using hx
  simp only [send, hcond, if_true] at h
  split_ifs at h with hlt herr <;> obtain ⟨rfl, rfl⟩ := Prod.mk.inj (Option.some.inj h)
  · exact Or.inl ⟨hlt, rfl, rfl⟩
  · exact Or.inr (Or.inl ⟨hlt, herr, rfl, rfl⟩)
  · exact Or.inr (Or.inr ⟨hlt, Bool.eq_false_iff.mpr herr, rfl, rfl⟩)

/-- A step of `send` neither closes a connection nor opens it. -/
theorem send_closed_iff (h : x.send k buffer rest = some (r, y)) : y.Closed ↔ x.Closed := by
  rw [(send_eq h).1, Closed, Closed]

/-- A step of a call on an open connection copies a part of the rest. -/
theorem Sends.open_step (hx : Sends n x g buffer rest) (hopen : ¬ x.Closed)
    (h : x.send k buffer rest = some (r, y)) :
    ¬ y.Closed ∧ (y.err = true → y.rst = true) ∧ y.sent = x.sent ++ rest.take k ∧
      (r = .returned ∧ y.sent = g ++ buffer ∨
        r = .more (rest.drop k) ∧ rest.drop k ≠ [] ∧ (rest.drop k).length < buffer.length) := by
  have hclosed := (send_closed_iff h).not.mpr hopen
  have hcond := hopen
  simp only [Closed, not_or, Bool.not_eq_true] at hcond
  have hpos : 0 < k := by
    have hstep := h
    have hand : (x.shut || x.rst) = false := by rw [hcond.1, hcond.2]; rfl
    simp only [send, hand, Bool.false_eq_true, if_false] at hstep
    split_ifs at hstep with hk <;> exact hk.1
  obtain ⟨room, heq, hr⟩ := send_open hcond.1 hcond.2 h
  have hsent : y.sent = x.sent ++ rest.take k := by rw [heq, sent_append_bytes]
  have herr : y.err = true → y.rst = true := by
    rw [heq]
    exact fun herr => absurd (hx.error herr) (by rw [hcond.2]; simp)
  refine ⟨hclosed, herr, hsent, hr.imp (fun hr => ⟨hr.1, ?_⟩) fun hr => ⟨hr.1, ?_, ?_⟩⟩
  · rw [hsent, hr.2, hx.eq hopen]
  · rw [Ne, List.drop_eq_nil_iff]
    omega
  · have hle : rest.length ≤ buffer.length := by
      rcases hx.copied with ⟨rfl, -⟩ | ⟨hlt, -, -⟩
      · exact le_rfl
      · exact hlt.le
    rw [List.length_drop]
    omega

/-- The call goes on. -/
theorem Sends.more (hx : Sends n x g buffer rest)
    (h : x.send k buffer rest = some (.more rest', y)) : Sends n y g buffer rest' := by
  by_cases hclosed : x.Closed
  · exact absurd rfl ((send_closed hclosed h).2 rest')
  · obtain ⟨-, herr, hsent, ⟨hr, -⟩ | ⟨hr, hne, hlt⟩⟩ := hx.open_step hclosed h
    · cases hr
    · obtain rfl := Sending.more.inj hr
      refine ⟨hx.chunk, hne, Or.inr ⟨hlt, ?_, herr⟩⟩
      rw [hsent, List.append_assoc, List.take_append_drop, hx.eq hclosed]

/-- The call returns, with a full count, a short one or an error. -/
theorem Sends.returned (hx : Sends n x g buffer rest)
    (h : x.send k buffer rest = some (.returned, y)) : Fed n y (g ++ buffer) := by
  by_cases hclosed : x.Closed
  · rcases send_closed_cases hclosed h with ⟨hlt, -, rfl⟩ | ⟨hlt, herr, -, rfl⟩ | ⟨-, -, hr, -⟩
    · -- a short count
      refine ⟨hx.sent, ?_, fun herr => hx.error herr⟩
      rcases hx.copied with ⟨rfl, -⟩ | ⟨-, heq, -⟩
      · exact absurd hlt (lt_irrefl _)
      · have hslack := le_slack (n := n) hclosed
        have hchunk := hx.chunk
        rw [← heq, List.length_append]
        omega
    · -- the pending error
      have hfed : Fed n x g := by
        rcases hx.copied with ⟨-, hfed⟩ | ⟨hlt', -, -⟩
        · exact hfed
        · exact absurd hlt' hlt
      have hlost := hfed.lost
      have hslack := slack_pending (n := n) herr
      have hchunk := hx.chunk
      refine ⟨hfed.sent.trans (List.prefix_append g buffer), ?_, fun herr => absurd herr (by simp)⟩
      rw [slack_reported (n := n) (x := { x with err := false }) (hfed.error herr) rfl,
        List.length_append]
      change g.length + buffer.length ≤ x.sent.length + (n - 1 + n)
      omega
    · cases hr
  · obtain ⟨-, herr, -, ⟨-, hsent⟩ | ⟨hr, -⟩⟩ := hx.open_step hclosed h
    · refine ⟨?_, ?_, herr⟩
      · rw [hsent]
      · rw [hsent]
        exact Nat.le_add_right _ _
    · cases hr

/-- `SIGPIPE` is raised on a closed connection only, and nothing is done to it. -/
theorem send_sigpipe (h : x.send k buffer rest = some (.sigpipe, y)) : y = x ∧ x.Closed := by
  by_cases hclosed : x.Closed
  · rcases send_closed_cases hclosed h with ⟨-, hr, -⟩ | ⟨-, -, hr, -⟩ | ⟨-, -, -, rfl⟩
    · cases hr
    · cases hr
    · exact ⟨rfl, hclosed⟩
  · simp only [Closed, not_or, Bool.not_eq_true] at hclosed
    obtain ⟨room, -, ⟨hr, -⟩ | ⟨hr, -⟩⟩ := send_open hclosed.1 hclosed.2 h <;> cases hr

/-- A step after which a call goes on leaves something to be copied. -/
theorem send_more (h : x.send k buffer rest = some (.more rest', y)) :
    rest' ≠ [] ∧ rest'.length ≤ rest.length := by
  by_cases hclosed : x.Closed
  · exact absurd rfl ((send_closed hclosed h).2 rest')
  · simp only [Closed, not_or, Bool.not_eq_true] at hclosed
    obtain ⟨room, -, ⟨hr, -⟩ | ⟨hr, hlt⟩⟩ := send_open hclosed.1 hclosed.2 h
    · cases hr
    · obtain rfl := Sending.more.inj hr
      rw [Ne, List.drop_eq_nil_iff, List.length_drop]
      omega

/-- `SIGPIPE` ends the process before anything of the chunk has been copied. -/
theorem Sends.killed (hx : Sends n x g buffer rest)
    (h : x.send k buffer rest = some (.sigpipe, y)) : Fed n x g := by
  rcases send_closed_cases (send_sigpipe h).2 h with ⟨-, hr, -⟩ | ⟨-, -, hr, -⟩ | ⟨hlt, -, -, -⟩
  · cases hr
  · cases hr
  · rcases hx.copied with ⟨-, hfed⟩ | ⟨hlt', -, -⟩
    · exact hfed
    · exact absurd hlt' hlt

end Sends

/-! ### Calls that wait -/

/-- Nothing has arrived, and the connection is open on both sides. -/
structure Silent (x : Sock) : Prop extends x.Live where
  inq : x.inq = []
  shut : x.shut = false

theorem Silent.not_closed {x : Sock} (hx : x.Silent) : ¬ x.Closed := by
  rintro (hshut | hrst)
  · rw [hx.shut] at hshut
    cases hshut
  · rw [hx.rst] at hrst
    cases hrst

/-- A `recv` waits on a silent connection only. -/
theorem silent_of_recv {x : Sock} {len : ℕ} (hlen : 0 < len) (h : ∀ k, x.recv len k = none) :
    x.Silent := by
  have hone := h 1
  unfold recv at hone
  split_ifs at hone with hinq herr hend htake
  · simp only [Bool.or_eq_true, not_or, Bool.not_eq_true] at hend
    have herr : x.err = false := by simpa [hend] using herr
    exact ⟨⟨hend.1.1, hend.1.2, herr⟩, hinq, hend.2⟩
  · have hpos := List.length_pos_iff.mpr hinq
    exact absurd ⟨Nat.one_pos, hlen, hpos⟩ htake

/-- A `send` waits for room only, and not on a closed connection. -/
theorem room_of_send {x : Sock} {buffer rest : List Byte} (hrest : rest ≠ [])
    (h : ∀ k, x.send k buffer rest = none) : x.room = 0 ∧ ¬ x.Closed := by
  have hone := h 1
  unfold send at hone
  split_ifs at hone with hclosed hlen herr htake
  have hpos := List.length_pos_iff.mpr hrest
  refine ⟨?_, by simpa [Closed] using hclosed⟩
  by_contra hroom
  exact htake ⟨Nat.one_pos, hpos, Nat.pos_of_ne_zero hroom⟩

/-! ### The send buffer -/

/-- The bytes that have been sent and those that the kernel would still accept. -/
def budget (x : Sock) : ℕ := x.sent.length + x.room

/-- The space that the peer makes. -/
def Peer.drained : Peer → ℕ
  | .drain k => k
  | _ => 0

theorem send_budget {x y : Sock} {k : ℕ} {buffer rest : List Byte} {r : Sending}
    (h : x.send k buffer rest = some (r, y)) : y.budget = x.budget := by
  by_cases hclosed : x.Closed
  · rw [(send_closed hclosed h).1]
    rfl
  · have hcond : (x.shut || x.rst) = false := by
      simpa [Closed, not_or] using hclosed
    simp only [send, hcond, Bool.false_eq_true, if_false] at h
    split_ifs at h with hk <;> obtain ⟨-, rfl⟩ := Prod.mk.inj (Option.some.inj h) <;>
      rw [budget, sent_append_bytes, List.length_append, List.length_take, budget] <;>
      change _ + min k rest.length + (x.room - k) = _ <;> omega

theorem peer_budget {x y : Sock} {e : Peer} (h : x.peer e = some y) :
    y.budget = x.budget + e.drained := by
  have hsent : y.sent = x.sent := by rw [Sock.sent, (peer_eq h).1, Sock.sent]
  rw [budget, hsent, budget]
  cases e with
  | drain k =>
    obtain rfl := Option.some.inj h
    exact (Nat.add_assoc _ _ _).symm
  | _ =>
    simp only [Sock.peer] at h
    split_ifs at h <;> obtain rfl := Option.some.inj h <;> rfl

theorem recv_budget {x y : Sock} {len k : ℕ} {r : Ret} (h : x.recv len k = some (r, y)) :
    y.budget = x.budget := by
  rw [(recv_eq h).1]
  rfl

@[simp] theorem shutdown_budget (x : Sock) : x.shutdown.budget = x.budget := by
  rw [budget, shutdown_sent]
  rfl

end Sock

end Parikshan.Posix
