import Parikshan.JavaProxy.Session

/-!
# The constructors of `Register`

`ProxyServer` accepts one client after another and creates a `Register` for each of them. Its
constructor connects to the server, and in duplicate mode to the replica, before it assigns
`insocket`; then it takes the streams and opens the pipe. If a call fails, `kill()` runs on what
has been built so far. Its debug message asks `insocket` for its address, so it throws a
`NullPointerException`, before it closes anything, unless `insocket` has been assigned; and if a
`close()` throws, the sockets behind it stay open. The accept loop catches an `IOException` only,
and outside the loop.

## Main definitions

* `construct`: a constructor.
* `proxyServer`: the accept loop.
* `Covered`: the condition on the outcomes of a client's calls.

## Main results

* `proxyServer_iff`: the condition is exact.
-/

namespace Parikshan.JavaProxy

/-! ### The model -/

/-- An `IOException`. -/
inductive Failure
  | connectException
  | ioException
  deriving DecidableEq, Repr

/-- What a constructor throws. -/
inductive Throwable
  | failure (e : Failure)
  | nullPointerException
  deriving DecidableEq, Repr

/-- A statement in the `try` block of a constructor: to connect a socket and assign it, to assign
the socket of the client, to take a stream of a socket, to open the pipe. -/
inductive Stmt
  | connect (i : SockId)
  | assign
  | input (i : SockId)
  | output (i : SockId)
  | pipe
  deriving DecidableEq, Repr

/-- How the calls of a constructor for one client turn out, and the `close()` of each socket. -/
structure Outcomes where
  call : Stmt → Option Failure
  close : SockId → Option Failure

/-- A `Register` under construction: the fields that are not null, the sockets that have been
opened for the client and those that have been closed, and whether the threads run. -/
@[ext]
structure Construction where
  assigned : SockId → Bool
  opened : SockId → Bool
  closed : SockId → Bool
  started : Bool

/-- The socket of the client is open when the constructor is called. -/
def accepted : Construction where
  assigned _ := false
  opened i := i = .insocket
  closed _ := false
  started := false

/-- The sockets that a constructor connects. -/
def connects (duplicate : Bool) : List SockId :=
  if duplicate then [.outsocket, .replicaSocket] else [.outsocket]

/-- The calls behind the assignment of the client's socket. -/
def takes (duplicate : Bool) : List Stmt :=
  if duplicate then
    [.input .insocket, .output .insocket, .input .outsocket, .output .outsocket,
      .input .replicaSocket, .output .replicaSocket, .pipe]
  else [.input .insocket, .output .insocket, .input .outsocket, .output .outsocket, .pipe]

/-- The `try` block of a constructor. -/
def body (duplicate : Bool) : List Stmt :=
  (connects duplicate).map .connect ++ .assign :: takes duplicate

namespace Stmt

/-- Nothing fails in an assignment. -/
def outcome (o : Outcomes) : Stmt → Option Failure
  | .assign => none
  | st => o.call st

def effect (r : Construction) : Stmt → Construction
  | .connect i =>
    { r with assigned := Function.update r.assigned i true
             opened := Function.update r.opened i true }
  | .assign => { r with assigned := Function.update r.assigned .insocket true }
  | .input _ => r
  | .output _ => r
  | .pipe => r

/-- Run statements up to the first one that fails. -/
def exec (o : Outcomes) : List Stmt → Construction → Construction × Option Failure
  | [], r => (r, none)
  | st :: sts, r =>
    match st.outcome o with
    | none => exec o sts (st.effect r)
    | some e => (r, some e)

end Stmt

namespace Construction

def close (r : Construction) (i : SockId) : Construction :=
  { r with closed := Function.update r.closed i true }

/-- Close the sockets whose fields are not null, up to the first `close()` that throws. -/
def closeAll (o : Outcomes) : List SockId → Construction → Construction
  | [], r => r
  | i :: is, r =>
    if r.assigned i then
      match o.close i with
      | none => closeAll o is (r.close i)
      | some _ => r
    else closeAll o is r

/-- `kill()`, called by the constructor. -/
def kill (o : Outcomes) (r : Construction) : Construction × Option Throwable :=
  if r.assigned .insocket then (r.closeAll o (sockets true), none)
  else (r, some .nullPointerException)

end Construction

/-- A constructor: the `try` block, its handlers, and the start of the threads. -/
def construct (duplicate : Bool) (o : Outcomes) : Construction × Option Throwable :=
  match Stmt.exec o (body duplicate) accepted with
  | (r, none) => ({ r with started := true }, none)
  | (r, some .connectException) => r.kill o
  | (r, some .ioException) => r.kill o

/-- Where `ProxyServer` is: at `accept()`, behind the handler of an `IOException`, or an exception
has escaped. -/
inductive Progress
  | accepting
  | returned
  | thrown (e : Throwable)
  deriving DecidableEq, Repr

/-- The accept loop, for clients with the given outcomes: what has been constructed for those that
have been accepted, and where it is then. -/
def proxyServer (duplicate : Bool) : List Outcomes → List Construction × Progress
  | [] => ([], .accepting)
  | o :: os =>
    match construct duplicate o with
    | (r, none) => (r :: (proxyServer duplicate os).1, (proxyServer duplicate os).2)
    | (r, some (.failure _)) => ([r], .returned)
    | (r, some .nullPointerException) => ([r], .thrown .nullPointerException)

/-! ### One client -/

/-- A client for whom no threads run has no open socket. -/
def Construction.Released (r : Construction) : Prop :=
  r.started = false → ∀ i, r.opened i = true → r.closed i = true

/-- All sockets connect; and if a later call fails, `kill()` closes all sockets. -/
def Covered (duplicate : Bool) (o : Outcomes) : Prop :=
  (∀ i ∈ connects duplicate, o.call (.connect i) = none) ∧
    ((∀ st ∈ takes duplicate, o.call st = none) ∨ ∀ i ∈ sockets duplicate, o.close i = none)

/-- What has been built when the client's socket is assigned. -/
def connected (duplicate : Bool) : Construction where
  assigned i := i ∈ sockets duplicate
  opened i := i ∈ sockets duplicate
  closed _ := false
  started := false

section Client

variable {duplicate : Bool} {o : Outcomes} {r : Construction} {is : List SockId}

/-- The calls behind the assignment build nothing. -/
theorem exec_of_takes {sts : List Stmt} (h : sts ⊆ takes duplicate) :
    (Stmt.exec o sts r).1 = r ∧
      ((Stmt.exec o sts r).2 = none ↔ ∀ st ∈ sts, o.call st = none) := by
  induction sts with
  | nil => simp [Stmt.exec]
  | cons st sts ih =>
    obtain ⟨hst, hsts⟩ := List.cons_subset.mp h
    have hquiet : st.outcome o = o.call st ∧ st.effect r = r := by
      cases st with
      | connect i => cases duplicate <;> simp [takes] at hst
      | assign => cases duplicate <;> simp [takes] at hst
      | _ => exact ⟨rfl, rfl⟩
    simp only [Stmt.exec, hquiet.1, List.mem_cons, forall_eq_or_imp]
    cases hcall : o.call st with
    | none => simpa [hquiet.2] using ih hsts
    | some e => simp

/-- The connections, when all of them succeed. -/
theorem exec_connects (h : ∀ i ∈ is, o.call (.connect i) = none) (sts : List Stmt) :
    Stmt.exec o (is.map .connect ++ sts) r =
      Stmt.exec o sts (is.foldl (fun r i => Stmt.effect r (.connect i)) r) := by
  induction is generalizing r with
  | nil => rfl
  | cons i is ih =>
    have hi : o.call (.connect i) = none := h i List.mem_cons_self
    simp only [List.map_cons, List.cons_append, Stmt.exec, Stmt.outcome, hi, List.foldl_cons]
    exact ih fun j hj => h j (List.mem_cons_of_mem i hj)

/-- The connections, when one of them fails. -/
theorem exec_connects_fails (h : ¬ ∀ i ∈ is, o.call (.connect i) = none) (sts : List Stmt)
    (hmem : .insocket ∉ is) (hnull : r.assigned .insocket = false) :
    ∃ t e, Stmt.exec o (is.map .connect ++ sts) r = (t, some e) ∧
      t.assigned .insocket = false := by
  induction is generalizing r with
  | nil => simp at h
  | cons i is ih =>
    simp only [List.map_cons, List.cons_append, Stmt.exec, Stmt.outcome]
    cases hi : o.call (.connect i) with
    | some e => exact ⟨r, e, rfl, hnull⟩
    | none =>
      simp only [List.mem_cons, not_or] at hmem
      refine ih (by simpa [hi] using h) hmem.2 ?_
      simpa [Stmt.effect, Function.update_of_ne hmem.1] using hnull

theorem connected_eq (duplicate : Bool) :
    Stmt.effect ((connects duplicate).foldl (fun r i => Stmt.effect r (.connect i)) accepted)
      .assign = connected duplicate := by
  ext i
  · cases duplicate <;> cases i <;> rfl
  · cases duplicate <;> cases i <;> rfl
  · cases duplicate <;> rfl
  · cases duplicate <;> rfl

/-- The constructor when all sockets connect. -/
theorem exec_body (h : ∀ i ∈ connects duplicate, o.call (.connect i) = none) :
    Stmt.exec o (body duplicate) accepted =
      Stmt.exec o (takes duplicate) (connected duplicate) := by
  rw [body, exec_connects h, Stmt.exec, ← connected_eq]
  rfl

/-- The constructor when a socket does not connect. -/
theorem construct_of_connect_fails (h : ¬ ∀ i ∈ connects duplicate, o.call (.connect i) = none) :
    (construct duplicate o).2 = some .nullPointerException := by
  obtain ⟨r, e, hexec, hnull⟩ := exec_connects_fails h (.assign :: takes duplicate)
    (by cases duplicate <;> decide) (r := accepted) rfl
  rw [← body] at hexec
  cases e <;> simp [construct, hexec, Construction.kill, hnull]

/-- `kill()` closes the sockets that have been assigned, if no `close()` throws. -/
theorem closeAll_closed (h : ∀ i ∈ is, r.assigned i = true → o.close i = none) (i : SockId) :
    (r.closeAll o is).closed i = true ↔
      r.closed i = true ∨ i ∈ is ∧ r.assigned i = true := by
  induction is generalizing r with
  | nil => simp [Construction.closeAll]
  | cons j is ih =>
    have hrest := fun k hk => h k (List.mem_cons_of_mem j hk)
    by_cases hj : r.assigned j = true
    · simp only [Construction.closeAll, hj, if_true, h j List.mem_cons_self hj]
      rw [ih (r := r.close j) hrest]
      by_cases hij : i = j
      · subst hij
        simp [Construction.close, hj]
      · simp [Construction.close, hij]
    · simp only [Construction.closeAll, hj, Bool.false_eq_true, if_false]
      rw [ih hrest]
      by_cases hij : i = j
      · subst hij
        simp [hj]
      · simp [hij]

/-- If all assigned sockets have been closed, no `close()` has thrown. -/
theorem closeAll_throws (hnodup : is.Nodup) (hopen : ∀ i ∈ is, r.closed i = false)
    (h : ∀ i ∈ is, r.assigned i = true → (r.closeAll o is).closed i = true) :
    ∀ i ∈ is, r.assigned i = true → o.close i = none := by
  induction is generalizing r with
  | nil => simp
  | cons j is ih =>
    obtain ⟨hj, hnodup⟩ := List.nodup_cons.mp hnodup
    have hrest (i : SockId) (hi : i ∈ is) : r.closed i = false :=
      hopen i (List.mem_cons_of_mem j hi)
    by_cases hassigned : r.assigned j = true
    · cases hclose : o.close j with
      | some e =>
        have hclosed := h j List.mem_cons_self hassigned
        simp [Construction.closeAll, hassigned, hclose, hopen j List.mem_cons_self] at hclosed
      | none =>
        simp only [Construction.closeAll, hassigned, if_true, hclose] at h
        have htail := ih (r := r.close j) hnodup
          (fun i hi => by
            have hij : i ≠ j := fun hij => hj (hij ▸ hi)
            simpa [Construction.close, Function.update_of_ne hij] using hrest i hi)
          fun i hi => h i (List.mem_cons_of_mem j hi)
        intro i hi hi'
        rcases List.mem_cons.mp hi with rfl | hi
        · exact hclose
        · exact htail i hi hi'
    · simp only [Construction.closeAll, hassigned, Bool.false_eq_true, if_false] at h
      intro i hi hi'
      rcases List.mem_cons.mp hi with rfl | hi
      · exact absurd hi' hassigned
      · exact ih hnodup hrest (fun i hi => h i (List.mem_cons_of_mem j hi)) i hi hi'

theorem closeAll_frame : (r.closeAll o is).opened = r.opened ∧
    (r.closeAll o is).started = r.started := by
  induction is generalizing r with
  | nil => exact ⟨rfl, rfl⟩
  | cons i is ih =>
    simp only [Construction.closeAll]
    split_ifs
    · split
      · exact ih
      · exact ⟨rfl, rfl⟩
    · exact ih

/-- **One client.** The constructor throws nothing and leaves nothing open for a client that could
not be set up if and only if its outcomes are covered. -/
theorem construct_iff :
    (construct duplicate o).2 = none ∧ (construct duplicate o).1.Released ↔
      Covered duplicate o := by
  by_cases hconnects : ∀ i ∈ connects duplicate, o.call (.connect i) = none
  · have hassigned : (connected duplicate).assigned .insocket = true := by
      cases duplicate <;> rfl
    have hsockets (i : SockId) : i ∈ sockets true := by cases i <;> decide
    have hfield (i : SockId) : (connected duplicate).assigned i = true ↔ i ∈ sockets duplicate := by
      simp [connected]
    obtain ⟨hsame, htakes⟩ := exec_of_takes (o := o) (r := connected duplicate)
      (List.Subset.refl (takes duplicate))
    cases hexec : Stmt.exec o (takes duplicate) (connected duplicate) with
    | mk r e =>
      rw [hexec] at hsame htakes
      obtain rfl : r = connected duplicate := hsame
      cases e with
      | none =>
        have hstarted : construct duplicate o =
            ({ connected duplicate with started := true }, none) := by
          rw [construct, exec_body hconnects, hexec]
        rw [hstarted]
        exact iff_of_true ⟨rfl, fun h => by cases h⟩ ⟨hconnects, Or.inl (htakes.mp rfl)⟩
      | some e =>
        have hkilled : construct duplicate o =
            ((connected duplicate).closeAll o (sockets true), none) := by
          cases e <;> simp [construct, exec_body hconnects, hexec, Construction.kill, hassigned]
        have hfails : ¬ ∀ st ∈ takes duplicate, o.call st = none := fun h => by
          cases htakes.mpr h
        rw [hkilled, Covered, and_iff_right rfl, and_iff_right hconnects, or_iff_right hfails,
          Construction.Released]
        rw [closeAll_frame.1, closeAll_frame.2]
        constructor
        · intro h i hi
          refine closeAll_throws (by decide) (fun _ _ => rfl) (fun j _ hj => ?_) i (hsockets i)
            ((hfield i).mpr hi)
          exact h rfl j hj
        · intro h _ i hi
          exact (closeAll_closed (fun j _ hj => h j ((hfield j).mp hj)) i).mpr
            (Or.inr ⟨hsockets i, hi⟩)
  · rw [construct_of_connect_fails hconnects]
    exact iff_of_false (fun h => by cases h.1) fun h => hconnects h.1

end Client

/-! ### The accept loop -/

/-- The accept loop serves all clients: no exception ends it, every client is accepted, and one
that could not be set up has no open socket. -/
def Survives (duplicate : Bool) (os : List Outcomes) : Prop :=
  (proxyServer duplicate os).2 = .accepting ∧
    (proxyServer duplicate os).1.length = os.length ∧
    ∀ r ∈ (proxyServer duplicate os).1, r.Released

/-- **The accept loop survives failed upstreams** if and only if all sockets of every client connect
and, where a later call fails, `kill()` closes all sockets. -/
theorem proxyServer_iff (duplicate : Bool) (os : List Outcomes) :
    Survives duplicate os ↔ ∀ o ∈ os, Covered duplicate o := by
  induction os with
  | nil => simp [Survives, proxyServer]
  | cons o os ih =>
    rw [List.forall_mem_cons, ← ih, ← construct_iff]
    cases hclient : construct duplicate o with
    | mk r e =>
      cases e with
      | none =>
        simp only [Survives, proxyServer, hclient, List.length_cons, Nat.add_right_cancel_iff,
          List.forall_mem_cons, true_and]
        constructor
        · rintro ⟨haccepting, hlength, hr, hrest⟩
          exact ⟨hr, haccepting, hlength, hrest⟩
        · rintro ⟨hr, haccepting, hlength, hrest⟩
          exact ⟨haccepting, hlength, hr, hrest⟩
      | some e =>
        refine iff_of_false (fun h => ?_) fun h => by cases h.1.1
        have haccepting := h.1
        cases e <;> simp [proxyServer, hclient] at haccepting

/-- The server refuses the connection. -/
def refused : Outcomes where
  call st := if st = .connect .outsocket then some .connectException else none
  close _ := none

theorem proxyServer_fails : ¬ ∀ (duplicate : Bool) (os : List Outcomes),
    (∀ o ∈ os, ∀ i, o.close i = none) → Survives duplicate os := by
  intro hall
  have hstate : (proxyServer false [refused]).2 = .thrown .nullPointerException := by decide
  have hsurvives := (hall false [refused] (by simp [refused])).1
  simp [hstate] at hsurvives

end Parikshan.JavaProxy
