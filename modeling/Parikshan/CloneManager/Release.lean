import Parikshan.CloneManager.Exclusion
import Mathlib.Data.List.Induction

/-!
# The lock file after a run

A run that has created the lock file is to remove it before it exits. All `undo` functions lead to
`undo_lock`, and so do the branches for `--check-only` and for a live migration. The branch for a
container that is stopped and started again does not: the file stays behind its run, and every later
run is refused. Nor does a shell that is ended by a configuration it reads.

The file holds the process id of the run that has created it. It is the file of a run as long as no
other command has created or removed it, also when the process id is used again. If the `echo` of
`lock_ct` fails when the file has been created, the file is empty: it is the file of no run, and the
run that leaves it exits.

## Main definitions

* `Fails`: a command turns out so that the script calls an `undo` function.
* `Quits`: what is read by `.` or `eval` ends the shell.
* `Releases`: the script comes to `undo_lock`, and the removal works.
* `lockFile`, `holder`: the lock file that is there, and the run that has created it.
* `Stolen`: another run has removed the lock file of a run.

## Main results

* `lock_released_iff`: the lock file of a run that has exited is gone exactly under this condition,
  and if all runs meet it then a run is refused only while another one has the lock.
* `lock_outlives`: a run that succeeds, and a later one that is refused.
-/

namespace Parikshan.CloneManager

variable {ι M B : Type}

/-! ### The condition -/

/-- A check turns out so that the script gives up. Those that are made for a live migration only are
left out. -/
def Query.Fails (q : Query) (r : Bool) : Prop :=
  match q with
  | .connect | .vzRunning | .ploopGetdev | .blockDev | .topDelta => r = false
  | .dstExists | .ipInUse => r = true
  | _ => False

/-- The script looks at the status of the command. -/
def Action.Checked : Action → Prop
  | .rmLock | .setPaths _ | .rmDelta _ | .resumeProduction | .rmDump | .rmDstDump => False
  | _ => True

/-- A command of the main part turns out so that the script calls an `undo` function. -/
def Cmd.Fails : (c : Cmd) → c.Reply → Prop
  | .query q, (r : Bool) => q.Fails r
  | .act a, (r : Bool) => a.Checked ∧ r = false
  | .status, (r : Status) => r.deleted = true
  | .remoteConf, (r : RemoteConf) => r.root = "" ∨ r.priv = ""
  | .applyConfig, (r : ℕ) => r ≠ 20 ∧ r ≠ 21 ∧ r ≠ 0
  | .ploopInfo, (r : Option String) => r = none
  | .compact, (r : Bool) => r = false
  | .snapshot, (r : Bool) => r = false
  | .rsync1 _, (r : ℕ) => r ≠ 24 ∧ r ≠ 0
  | .rsync2, (r : ℕ) => r ≠ 0
  | .ploopCopy _ _ _, (r : Bool) => r = false
  | _, _ => False

def Fails (e : (vzctl M B).Event) : Prop :=
  e.1.issuer = .main ∧ e.1.cmd.Fails (e.1.cmd.reply B e.2)

/-- The shell is ended by what it reads into itself. -/
def Cmd.Quits : (c : Cmd) → c.Reply → Prop
  | .source _, (r : Bool) => r = false
  | _, _ => False

def Quits (e : (vzctl M B).Event) : Prop := e.1.cmd.Quits (e.1.cmd.reply B e.2)

instance Cmd.decidableQuits : (c : Cmd) → (r : c.Reply) → Decidable (c.Quits r)
  | .source _, (r : Bool) => inferInstanceAs (Decidable (r = false))
  | .query _, _ | .act _, _ | .lock _, _ | .testLock, _ | .catLock, _ | .testDdxml, _
  | .status, _ | .remoteConf, _ | .remoteLink, _ | .applyConfig, _ | .ploopInfo, _
  | .ploopFeedback, _ | .compact, _ | .snapshot, _ | .rsync1 _, _ | .rsync2, _
  | .ploopCopy _ _ _, _ => isFalse id

instance : DecidablePred (Quits (M := M) (B := B)) :=
  fun e => Cmd.decidableQuits e.1.cmd (e.1.cmd.reply B e.2)

def Tries (e : (vzctl M B).Event) : Prop := e.1.cmd = .act .rmLock

def Empties (e : (vzctl M B).Event) : Prop := e.1.cmd.Empties e.2

/-- `lock_ct` finds a lock file. -/
def Cmd.Sees : (c : Cmd) → c.Reply → Prop
  | .testLock, (r : Bool) => r = true
  | _, _ => False

def Sees (e : (vzctl M B).Event) : Prop := e.1.cmd.Sees (e.1.cmd.reply B e.2)

/-- The run comes to `undo_lock`. -/
def Undoes (o : Options) (past : List (Label ι M B)) (i : ι) : Prop :=
  ¬ Did Quits past i ∧ (o.online = true ∨ o.checkOnly = true ∨ Did Fails past i)

/-- **The condition.** The run is live or only a check, or one of its commands fails so that the
script calls an `undo` function, and no configuration ends its shell; and if it tries to remove the
lock file, it succeeds once. -/
def Releases (o : Options) (past : List (Label ι M B)) (i : ι) : Prop :=
  Undoes o past i ∧ (Did Tries past i → Unlocked past i)

/-! ### The lock file and its run -/

/-- The lock file after a command: if there is one, it is the one of a run or it is empty. -/
def Cmd.lockFile (i : ι) : (c : Cmd) → c.Out B → Option (Option ι) → Option (Option ι)
  | .lock _, (o : Created), h =>
    match o with
    | .ok => some (some i)
    | .failed => h
    | .empty => some none
  | .act .rmLock, (o : Bool), h => if o then none else h
  | _, _, h => h

def Label.lockFile (h : Option (Option ι)) : Label ι M B → Option (Option ι)
  | .inl (i, e) => e.1.cmd.lockFile i e.2 h
  | .inr _ => h

/-- The lock file that is there. -/
def lockFile (past : List (Label ι M B)) : Option (Option ι) := past.foldl Label.lockFile none

/-- The run whose lock file is there. -/
def holder (past : List (Label ι M B)) : Option ι := (lockFile past).join

/-- Another run has removed the lock file of the run. -/
def Stolen (past : List (Label ι M B)) (i : ι) : Prop :=
  ∃ xs j e ys, past = xs ++ .inl (j, e) :: ys ∧ j ≠ i ∧ Unlocks e ∧ holder xs = some i

section Holder

variable {past : List (Label ι M B)} {a : Label ι M B} {i : ι}

theorem lockFile_concat : lockFile (past ++ [a]) = Label.lockFile (lockFile past) a := by
  rw [lockFile, List.foldl_append]
  rfl

theorem holder_eq_some : holder past = some i ↔ lockFile past = some (some i) :=
  Option.join_eq_some_iff

theorem Cmd.lockFile_of_locks {c : Cmd} {o : c.Out B} {h : Option (Option ι)}
    (hl : c.Locks (c.reply B o)) : c.lockFile i o h = some (some i) := by
  cases c with
  | lock pid =>
    obtain rfl : o = .ok := of_decide_eq_true hl
    rfl
  | _ => exact hl.elim

theorem Cmd.lockFile_of_empties {c : Cmd} {o : c.Out B} {h : Option (Option ι)}
    (he : c.Empties o) : c.lockFile i o h = some none := by
  cases c with
  | lock pid =>
    obtain rfl : o = .empty := he
    rfl
  | _ => exact he.elim

theorem Cmd.eq_of_unlocks {c : Cmd} {r : c.Reply} (hu : c.Unlocks r) : c = .act .rmLock := by
  cases c with
  | act a =>
    cases a with
    | rmLock => rfl
    | _ => exact hu.elim
  | _ => exact hu.elim

theorem Cmd.lockFile_of_unlocks {c : Cmd} {o : c.Out B} {h : Option (Option ι)}
    (hu : c.Unlocks (c.reply B o)) : c.lockFile i o h = none := by
  obtain rfl := Cmd.eq_of_unlocks hu
  obtain rfl : o = true := hu
  rfl

theorem Cmd.lockFile_eq {c : Cmd} {o : c.Out B} {h : Option (Option ι)}
    (hl : ¬ c.Locks (c.reply B o)) (hu : ¬ c.Unlocks (c.reply B o)) (he : ¬ c.Empties o) :
    c.lockFile i o h = h := by
  cases c with
  | lock pid =>
    cases o with
    | ok => exact absurd rfl hl
    | failed => rfl
    | empty => exact absurd rfl he
  | act a =>
    cases a with
    | rmLock => exact if_neg hu
    | _ => rfl
  | _ => rfl

theorem Cmd.exec_of_unlocks {c : Cmd} {o : c.Out B} {w w' : World M B}
    (h : c.exec o w = some w') (hu : c.Unlocks (c.reply B o)) : w'.lock = none := by
  obtain rfl := Cmd.eq_of_unlocks hu
  obtain rfl : o = true := hu
  obtain rfl := Option.some.inj h
  rfl

/-- A label by which the run does not create the lock file leaves it its own only if it neither
creates nor removes it. -/
theorem holder_of_concat (hl : ∀ e, a = .inl (i, e) → ¬ Locks e)
    (h : holder (past ++ [a]) = some i) :
    holder past = some i ∧ ∀ j e, a = .inl (j, e) → ¬ Locks e ∧ ¬ Unlocks e ∧ ¬ Empties e := by
  rw [holder_eq_some, lockFile_concat] at h
  rcases a with ⟨j, e⟩ | n
  · have hlocks : ¬ Locks e := by
      intro he
      have hj : some (some j) = some (some i) := (Cmd.lockFile_of_locks he).symm.trans h
      exact hl e (by rw [Option.some.inj (Option.some.inj hj)]) he
    have hunlocks : ¬ Unlocks e := by
      intro he
      have hnone : none = some (some i) := (Cmd.lockFile_of_unlocks he).symm.trans h
      cases hnone
    have hempties : ¬ Empties e := by
      intro he
      have hnone : some none = some (some i) := (Cmd.lockFile_of_empties he).symm.trans h
      cases hnone
    refine ⟨holder_eq_some.mpr ((Cmd.lockFile_eq hlocks hunlocks hempties).symm.trans h), ?_⟩
    rintro j e ⟨⟩
    exact ⟨hlocks, hunlocks, hempties⟩
  · exact ⟨holder_eq_some.mpr h, fun _ _ ha => by cases ha⟩

/-- An empty lock file has been left by some run. -/
theorem empties_of_lockFile (h : lockFile past = some none) : ∃ j, Did Empties past j := by
  induction past using List.reverseRecOn with
  | nil => cases h
  | append_singleton past a ih =>
    rw [lockFile_concat] at h
    rcases a with ⟨j, e⟩ | n
    · by_cases he : Empties e
      · exact ⟨j, did_concat.mpr (Or.inr ⟨e, rfl, he⟩)⟩
      · have hlocks : ¬ Locks e := fun hl => by
          cases (Cmd.lockFile_of_locks hl).symm.trans h
        have hunlocks : ¬ Unlocks e := fun hu => by
          cases (Cmd.lockFile_of_unlocks hu).symm.trans h
        obtain ⟨j, hj⟩ := ih ((Cmd.lockFile_eq hlocks hunlocks he).symm.trans h)
        exact ⟨j, hj.concat⟩
    · obtain ⟨j, hj⟩ := ih h
      exact ⟨j, hj.concat⟩

/-- Labels of other runs do not change what a run has done. -/
theorem did_append {P : (vzctl M B).Event → Prop} {as : List (Label ι M B)}
    (h : ∀ e, .inl (i, e) ∉ as) : Did P (past ++ as) i ↔ Did P past i := by
  constructor
  · rintro ⟨e, he, hP⟩
    rcases List.mem_append.mp he with he | he
    · exact ⟨e, he, hP⟩
    · exact absurd he (h e)
  · rintro ⟨e, he, hP⟩
    exact ⟨e, List.mem_append_left _ he, hP⟩

theorem releases_append {o : Options} {as : List (Label ι M B)} (h : ∀ e, .inl (i, e) ∉ as) :
    Releases o (past ++ as) i ↔ Releases o past i :=
  and_congr
    (and_congr (not_congr (did_append h)) (or_congr Iff.rfl (or_congr Iff.rfl (did_append h))))
    (imp_congr (did_append h) (did_append h))

theorem not_did_concat {P : (vzctl M B).Event → Prop} (h : ¬ Did P past i)
    (ha : ∀ e, a = .inl (i, e) → ¬ P e) : ¬ Did P (past ++ [a]) i := by
  intro hdid
  rcases did_concat.mp hdid with hdid | ⟨e, he, hP⟩
  · exact h hdid
  · exact ha e he hP

theorem Undoes.concat {o : Options} (h : Undoes o past i)
    (ha : ∀ e, a = .inl (i, e) → ¬ Quits e) : Undoes o (past ++ [a]) i :=
  ⟨not_did_concat h.1 ha, h.2.imp_right (Or.imp_right Did.concat)⟩

/-- The lock file of a run that has not got past `lock_ct` is not there. -/
theorem locked_of_holder (h : holder past = some i) : Locked past i := by
  induction past using List.reverseRecOn with
  | nil => cases h
  | append_singleton past a ih =>
    by_cases hl : ∃ e, a = .inl (i, e) ∧ Locks e
    · exact locked_concat.mpr (Or.inr hl)
    · exact locked_concat.mpr (Or.inl (ih (holder_of_concat
        (fun e he hlocks => hl ⟨e, he, hlocks⟩) h).1))

theorem stolen_concat : Stolen (past ++ [a]) i ↔
    Stolen past i ∨ ∃ j e, a = .inl (j, e) ∧ j ≠ i ∧ Unlocks e ∧ holder past = some i := by
  constructor
  · rintro ⟨xs, j, e, ys, hsplit, hne, hu, hxs⟩
    rcases eq_append_cons_of_concat hsplit with ⟨rfl, ha, -⟩ | ⟨zs, hzs, -⟩
    · exact Or.inr ⟨j, e, ha, hne, hu, hxs⟩
    · exact Or.inl ⟨xs, j, e, zs, hzs, hne, hu, hxs⟩
  · rintro (⟨xs, j, e, ys, rfl, hne, hu, hxs⟩ | ⟨j, e, rfl, hne, hu, hp⟩)
    · exact ⟨xs, j, e, ys ++ [a], by simp, hne, hu, hxs⟩
    · exact ⟨past, j, e, [], rfl, hne, hu, hp⟩

theorem Stolen.locked (h : Stolen past i) : Locked past i := by
  obtain ⟨xs, j, e, ys, rfl, -, -, hxs⟩ := h
  obtain ⟨e', he', hl⟩ := locked_of_holder hxs
  exact ⟨e', List.mem_append_left _ he', hl⟩

theorem Unlocked.tried (h : Unlocked past i) : Did Tries past i := by
  obtain ⟨e, he, hu⟩ := h
  exact ⟨e, he, Cmd.eq_of_unlocks hu⟩

end Holder

/-! ### What a run knows of the lock file -/

/-- A command or a write of the container. -/
def Label.exec (w : World M B) : Label ι M B → Option (World M B)
  | .inl (_, e) => (vzctl M B).exec e.1 e.2 w
  | .inr n => write n w

/-- What holds between two commands of a run: of the world, and of all that has happened. -/
abbrev Assertion (ι M B : Type) : Type := World M B × List (Label ι M B) → Prop

/-- If the lock file of the run is there, it has its process id, and nobody has removed it. -/
def Held (pid : ℕ) (i : ι) : Assertion ι M B := fun x =>
  holder x.2 = some i → x.1.lock = some (some pid) ∧ ¬ Unlocked x.2 i ∧ ¬ Stolen x.2 i

/-- If the lock file of the run is there, the run has tried to remove it. -/
def LetGo (i : ι) : Assertion ι M B := fun x => holder x.2 = some i → Did Tries x.2 i

/-- Between two steps of the main part; at first the run has not tried to remove the lock file. -/
structure Between (fresh : Bool) (o : Options) (pid : ℕ) (i : ι)
    (x : World M B × List (Label ι M B)) : Prop where
  held : Held pid i x
  going : ¬ Did Quits x.2 i
  letGo : Did Fails x.2 i → LetGo i x
  undoes : Did Tries x.2 i → Undoes o x.2 i
  untried : fresh = true → ¬ Did Tries x.2 i

/-- In an `undo` function. -/
structure Undoing (o : Options) (pid : ℕ) (i : ι) (x : World M B × List (Label ι M B)) : Prop where
  held : Held pid i x
  undoes : Undoes o x.2 i

/-- After an `undo` function. -/
structure Undone (o : Options) (pid : ℕ) (i : ι) (x : World M B × List (Label ι M B)) : Prop
    extends Undoing o pid i x where
  letGo : LetGo i x

/-- When the run has exited. -/
structure Over (o : Options) (pid : ℕ) (i : ι) (x : World M B × List (Label ι M B)) : Prop where
  held : Held pid i x
  letGo : Undoes o x.2 i → LetGo i x
  undoes : Did Tries x.2 i → Undoes o x.2 i

section Step

variable {fresh : Bool} {o : Options} {pid : ℕ} {i : ι} {w w' : World M B}
  {past : List (Label ι M B)} {a : Label ι M B}

theorem Label.exec_lock (h : Label.exec w a = some w')
    (ha : ∀ j e, a = .inl (j, e) → ¬ Locks e ∧ ¬ Unlocks e ∧ ¬ Empties e) : w'.lock = w.lock := by
  rcases a with ⟨j, e⟩ | n
  · obtain ⟨hl, hu, he⟩ := ha j e rfl
    exact Cmd.exec_lock_eq h hl hu he
  · obtain ⟨-, ⟨m, rfl⟩ | ⟨path, b, -, rfl⟩⟩ := write_cases h
    · rfl
    · rfl

theorem Held.step (h : Held pid i (w, past)) (hl : ∀ e, a = .inl (i, e) → ¬ Locks e)
    (hw : Label.exec w a = some w') : Held pid i (w', past ++ [a]) := by
  intro hmine
  obtain ⟨hmine, ha⟩ := holder_of_concat hl hmine
  obtain ⟨hlock, hunlocked, hstolen⟩ := h hmine
  refine ⟨(Label.exec_lock hw ha).trans hlock, fun hu => ?_, fun hs => ?_⟩
  · rcases did_concat.mp hu with hu | ⟨e, he, hu⟩
    · exact hunlocked hu
    · exact (ha i e he).2.1 hu
  · rcases stolen_concat.mp hs with hs | ⟨j, e, he, -, hu, -⟩
    · exact hstolen hs
    · exact (ha j e he).2.1 hu

theorem LetGo.step (h : LetGo i (w, past)) (hl : ∀ e, a = .inl (i, e) → ¬ Locks e) :
    LetGo i (w', past ++ [a]) :=
  fun hmine => (h (holder_of_concat hl hmine).1).concat

theorem Undoing.step (h : Undoing o pid i (w, past))
    (hown : ∀ e, a = .inl (i, e) → ¬ Locks e ∧ ¬ Quits e)
    (hw : Label.exec w a = some w') : Undoing o pid i (w', past ++ [a]) :=
  ⟨h.held.step (fun e he => (hown e he).1) hw, h.undoes.concat fun e he => (hown e he).2⟩

theorem Undone.step (h : Undone o pid i (w, past))
    (hown : ∀ e, a = .inl (i, e) → ¬ Locks e ∧ ¬ Quits e)
    (hw : Label.exec w a = some w') : Undone o pid i (w', past ++ [a]) :=
  ⟨h.toUndoing.step hown hw, h.letGo.step fun e he => (hown e he).1⟩

theorem Between.step (h : Between fresh o pid i (w, past))
    (hown : ∀ e, a = .inl (i, e) → ¬ Locks e ∧ ¬ Quits e ∧ ¬ Fails e ∧ ¬ Tries e)
    (hw : Label.exec w a = some w') : Between fresh o pid i (w', past ++ [a]) := by
  have hl (e : (vzctl M B).Event) (he : a = .inl (i, e)) : ¬ Locks e := (hown e he).1
  have hquits (e : (vzctl M B).Event) (he : a = .inl (i, e)) : ¬ Quits e := (hown e he).2.1
  refine ⟨h.held.step hl hw, not_did_concat h.going hquits, fun hf => ?_, fun ht => ?_,
    fun hfresh => not_did_concat (h.untried hfresh) fun e he => (hown e he).2.2.2⟩
  · rcases did_concat.mp hf with hf | ⟨e, he, hf⟩
    · exact (h.letGo hf).step hl
    · exact absurd hf (hown e he).2.2.1
  · rcases did_concat.mp ht with ht | ⟨e, he, ht⟩
    · exact (h.undoes ht).concat hquits
    · exact absurd ht (hown e he).2.2.2

theorem Between.undoing (h : Between fresh o pid i (w, past))
    (hu : o.online = true ∨ o.checkOnly = true) : Undoing o pid i (w, past) :=
  ⟨h.held, h.going, hu.imp_right Or.inl⟩

theorem Undone.over (h : Undone o pid i (w, past)) : Over o pid i (w, past) :=
  ⟨h.held, fun _ => h.letGo, fun _ => h.undoes⟩

theorem Undone.between (h : Undone o pid i (w, past)) : Between false o pid i (w, past) :=
  ⟨h.held, h.undoes.1, fun _ => h.letGo, fun _ => h.undoes, fun hfresh => by cases hfresh⟩

theorem Between.anyway (h : Between fresh o pid i (w, past)) : Between false o pid i (w, past) :=
  ⟨h.held, h.going, h.letGo, h.undoes, fun hfresh => by cases hfresh⟩

/-- At the end of a run that is not live. -/
theorem Between.over (h : Between fresh o pid i (w, past)) (ho : o.online = false)
    (hc : o.checkOnly = false) : Over o pid i (w, past) := by
  refine ⟨h.held, ?_, h.undoes⟩
  rintro ⟨-, hon | hcheck | hf⟩
  · rw [ho] at hon
    cases hon
  · rw [hc] at hcheck
    cases hcheck
  · exact h.letGo hf

/-- A run the shell of which is ended has not come to `undo_lock`. -/
theorem over_of_quits {e : (vzctl M B).Event} (h : Held pid i (w, past))
    (htried : ¬ Did Tries past i) (he : Quits e) (hl : ¬ Locks e) (ht : ¬ Tries e)
    (hw : Label.exec w (.inl (i, e)) = some w') : Over o pid i (w', past ++ [.inl (i, e)]) := by
  refine ⟨h.step (by rintro e ⟨⟩; exact hl) hw, fun hu => ?_, fun hdid => ?_⟩
  · exact absurd (did_concat.mpr (Or.inr ⟨e, rfl, he⟩)) hu.1
  · exact absurd hdid (not_did_concat htried (by rintro e ⟨⟩; exact ht))

end Step

/-! ### Rules -/

/-- The command neither takes nor releases the lock, and does not end the shell. -/
def Cmd.Plain : Cmd → Prop
  | .lock _ | .act .rmLock | .source _ => False
  | _ => True

theorem Cmd.Plain.ne_lock {c : Cmd} (hc : c.Plain) (pid : ℕ) : c ≠ .lock pid := by
  rintro rfl
  exact hc

theorem Cmd.Plain.ne_rmLock {c : Cmd} (hc : c.Plain) : c ≠ .act .rmLock := by
  rintro rfl
  exact hc

theorem Cmd.Plain.not_quits {c : Cmd} (hc : c.Plain) (r : c.Reply) : ¬ c.Quits r := by
  cases c with
  | source f => exact hc.elim
  | _ => exact id

/-- Whatever it replies, the command does not take the lock and does not end the shell. -/
def Call.Stays (c : Call) : Prop := ∀ r : c.cmd.Reply, ¬ c.cmd.Locks r ∧ ¬ c.cmd.Quits r

theorem Call.Below.stays {k : ℕ} {c : Call} (h : c.Below k) : c.Stays := by
  obtain ⟨i, c⟩ := c
  cases c <;> first | exact h.elim | exact fun _ => ⟨id, id⟩

section Rules

variable [DecidableEq ι] {α : Type} {fresh : Bool} {o : Options} {pid : ℕ} {i : ι}

/-- A triple about a run among the others. -/
abbrev Among (i : ι) (P : Assertion ι M B) (p : Script α) (Q : α → Assertion ι M B)
    (E : ℕ → Assertion ι M B) : Prop :=
  ((vzctl M B).member i).Triple ((vzctl M B).others write i) (fun _ _ => True) P p Q E

/-- Such a triple for a part of the script that follows `lock_ct`. -/
abbrev Goes (o : Options) (pid : ℕ) (i : ι) (P : Assertion ι M B) (p : Script α)
    (Q : α → Assertion ι M B) : Prop :=
  Among i P p Q fun n x => n ≠ migErrLocked ∧ Over o pid i x

abbrev StableAmong (i : ι) (P : Assertion ι M B) : Prop :=
  Stable ((vzctl M B).others write i) P

theorem stable_of_step {P : Assertion ι M B}
    (h : ∀ past a w w', (∀ e, a ≠ .inl (i, e)) → P (w, past) → Label.exec w a = some w' →
      P (w', past ++ [a])) : StableAmong i P := by
  refine Shell.stable_others (fun past j e w w' hne hP hw => ?_) fun past n w w' hP hw => ?_
  · refine h past (.inl (j, e)) w w' ?_ hP hw
    rintro e' ⟨⟩
    exact hne rfl
  · exact h past (.inr n) w w' (fun e he => by cases he) hP hw

theorem Between.stable : StableAmong (M := M) (B := B) i (Between fresh o pid i) :=
  stable_of_step fun _ _ _ _ ha h hw => h.step (fun e he => absurd he (ha e)) hw

theorem Undoing.stable : StableAmong (M := M) (B := B) i (Undoing o pid i) :=
  stable_of_step fun _ _ _ _ ha h hw => h.step (fun e he => absurd he (ha e)) hw

theorem Over.stable : StableAmong (M := M) (B := B) i (Over o pid i) := by
  refine stable_of_step fun past a w w' ha h hw => ?_
  have hown (e : (vzctl M B).Event) (he : a = .inl (i, e)) : ¬ Locks e := absurd he (ha e)
  have hdid (P : (vzctl M B).Event → Prop) : Did P (past ++ [a]) i → Did P past i := by
    intro h
    rcases did_concat.mp h with h | ⟨e, he, -⟩
    · exact h
    · exact absurd he (ha e)
  refine ⟨h.held.step hown hw, fun hu => (h.letGo ?_).step hown, fun ht => ?_⟩
  · exact ⟨fun hquits => hu.1 hquits.concat, hu.2.imp_right (Or.imp_right (hdid Fails))⟩
  · exact (h.undoes (hdid Tries ht)).concat fun e he => absurd he (ha e)

theorem Undone.stable : StableAmong (M := M) (B := B) i (Undone o pid i) :=
  stable_of_step fun _ _ _ _ ha h hw => h.step (fun e he => absurd he (ha e)) hw

theorem untried_stable : StableAmong (M := M) (B := B) i fun x => ¬ Did Tries x.2 i :=
  stable_of_step fun _ _ _ _ ha h _ => not_did_concat h fun e he => absurd he (ha e)

variable {P : Assertion ι M B} {E : ℕ → Assertion ι M B}

theorem issue_among {s : Issuer} {c : Cmd} {Q : c.Reply → Assertion ι M B}
    (hP : StableAmong i P) (hQ : ∀ r, StableAmong i (Q r))
    (h : ∀ (r : c.Out B) w w' past, P (w, past) → c.exec r w = some w' →
      Q (c.reply B r) (w', past ++ [.inl (i, ⟨⟨s, c⟩, r⟩)])) : Among i P (issue s c) Q E :=
  Shell.Triple.member_issue (c := (⟨s, c⟩ : Call)) hP hQ h

/-- A part that does not take the lock and does not end the shell keeps what such commands keep. -/
theorem stays_among {p : Script α} (hp : p.All Call.Stays (fun _ => True) fun _ => False)
    (hP : StableAmong i P)
    (hstep : ∀ past (e : (vzctl M B).Event) w w', ¬ Locks e ∧ ¬ Quits e → P (w, past) →
      (vzctl M B).exec e.1 e.2 w = some w' → P (w', past ++ [.inl (i, e)])) :
    Among i P p (fun _ => P) E := by
  refine Shell.Triple.keep hp hP ?_
  rintro c hc r ⟨w, past⟩ x hw - hx
  obtain ⟨w', hw', rfl⟩ := Option.map_eq_some_iff.mp hx
  exact hstep past ⟨c, r⟩ w w' (hc _) hw hw'

theorem stays_undoing {p : Script α} (hp : p.All Call.Stays (fun _ => True) fun _ => False) :
    Among (M := M) (B := B) i (Undoing o pid i) p (fun _ => Undoing o pid i) E := by
  refine stays_among hp Undoing.stable fun past e w w' hown h hw => ?_
  exact h.step (a := .inl (i, e)) (by rintro e ⟨⟩; exact hown) hw

theorem stays_undone {p : Script α} (hp : p.All Call.Stays (fun _ => True) fun _ => False) :
    Among (M := M) (B := B) i (Undone o pid i) p (fun _ => Undone o pid i) E := by
  refine stays_among hp Undone.stable fun past e w w' hown h hw => ?_
  exact h.step (a := .inl (i, e)) (by rintro e ⟨⟩; exact hown) hw

/-- **A command of the main part** fails, or nothing changes. -/
theorem run_among {c : Cmd} (hc : c.Plain) :
    Among (M := M) (B := B) i (Between fresh o pid i) (run c) (fun r x =>
      ((c.Fails r → Undoing o pid i x) ∧ (¬ c.Fails r → Between fresh o pid i x)) ∧
        (fresh = true → ¬ Did Tries x.2 i)) E := by
  refine issue_among Between.stable (fun r => ((Undoing.stable.imp _).and
    (Between.stable.imp _)).and (untried_stable.imp _)) fun r w w' past h hw => ?_
  have hl : ¬ Locks (M := M) (B := B) ⟨⟨.main, c⟩, r⟩ := Cmd.not_locks hc.ne_lock _
  have hquits : ¬ Quits (M := M) (B := B) ⟨⟨.main, c⟩, r⟩ := hc.not_quits _
  have hw' : Label.exec w (.inl (i, ⟨⟨.main, c⟩, r⟩)) = some w' := hw
  refine ⟨⟨fun hf => ⟨h.held.step ?_ hw', not_did_concat h.going ?_, ?_⟩, fun hf => h.step ?_ hw'⟩,
    fun hfresh => not_did_concat (h.untried hfresh) ?_⟩
  · rintro e ⟨⟩
    exact hl
  · rintro e ⟨⟩
    exact hquits
  · exact Or.inr (Or.inr (did_concat.mpr (Or.inr ⟨_, rfl, rfl, hf⟩)))
  · rintro e ⟨⟩
    exact ⟨hl, hquits, fun h => hf h.2, hc.ne_rmLock⟩
  · rintro e ⟨⟩
    exact hc.ne_rmLock

theorem giveUp_among {q : Script Unit} {n : ℕ} {Q : Unit → Assertion ι M B}
    (hq : Goes o pid i P q fun _ => Undone o pid i) (hn : n ≠ migErrLocked) :
    Goes o pid i P (giveUp q n) Q :=
  hq.bind fun _ => Shell.Triple.exit Undone.stable fun _ h => ⟨hn, h.over⟩

theorem ret_among {a : α} {Q : α → Assertion ι M B} (hP : StableAmong i P)
    (h : ∀ x, P x → Q a x) : Among i P (.ret a) Q E :=
  Shell.Triple.ret hP h

/-- What a check or a step leads to. -/
abbrev Outcome (fresh : Bool) (o : Options) (pid : ℕ) (i : ι) (ok : Bool) : Assertion ι M B :=
  fun x =>
    (ok = false → Undoing o pid i x) ∧ (ok = true → Between fresh o pid i x)

theorem Outcome.stable {ok : Bool} : StableAmong (M := M) (B := B) i (Outcome fresh o pid i ok) :=
  (Undoing.stable.imp _).and (Between.stable.imp _)

theorem orDo_among {p : Script Bool} {q : Script Unit}
    (hp : Among (M := M) (B := B) i P p (Outcome fresh o pid i) E)
    (hq : Among i (Undoing o pid i) q (fun _ => Between fresh o pid i) E) :
    Among i P (p.orDo q) (fun _ => Between fresh o pid i) E :=
  hp.orDo (ret_among Outcome.stable fun _ h => h.2 rfl)
    (hq.pre fun _ h => h.1 rfl)

theorem when_among {b : Bool} {q : Script Unit}
    (hq : Among (M := M) (B := B) i (Undoing o pid i) q (fun _ => Between fresh o pid i) E) :
    Among i (Outcome fresh o pid i !b) (Prog.when b q) (fun _ => Between fresh o pid i) E := by
  refine Shell.Triple.when (fun hb => ?_) fun hb => ?_
  · exact hq.pre fun _ h => h.1 (by rw [hb]; rfl)
  · exact ret_among Outcome.stable fun _ h => h.2 (by rw [hb]; rfl)

/-- A part that is left out under a condition. -/
theorem when_between {b : Bool} {q : Script Unit}
    (hq : b = true → Among (M := M) (B := B) i (Between fresh o pid i) q
      (fun _ => Between fresh o pid i) E) :
    Among i (Between fresh o pid i) (Prog.when b q) (fun _ => Between fresh o pid i) E :=
  Shell.Triple.when hq fun _ => ret_among Between.stable fun _ h => h

theorem ignore_between {p : Script α}
    (hp : Among (M := M) (B := B) i (Between fresh o pid i) p (fun _ => Between fresh o pid i) E) :
    Among i (Between fresh o pid i) p.ignore (fun _ => Between fresh o pid i) E :=
  hp.ignore fun _ => ret_among Between.stable fun _ h => h

/-- A command whose failures are told from its reply. -/
theorem run_outcome {c : Cmd} (ok : c.Reply → Bool) (hc : c.Plain)
    (hok : ∀ r, ok r = false ↔ c.Fails r) :
    Among (M := M) (B := B) i (Between fresh o pid i) (run c)
      (fun r => Outcome fresh o pid i (ok r)) E := by
  refine (run_among hc).post fun r x h => ?_
  refine ⟨fun hr => h.1.1 ((hok r).mp hr), fun hr => h.1.2 fun hf => ?_⟩
  exact Bool.false_ne_true (((hok r).mpr hf).symm.trans hr)

theorem act_among {a : Action} (ha : a.Checked) :
    Among (M := M) (B := B) i (Between fresh o pid i) (act a) (Outcome fresh o pid i) E := by
  have hplain : (Cmd.act a).Plain := by
    cases a <;> first | exact ha.elim | trivial
  exact run_outcome (c := .act a) id hplain fun r => (and_iff_right ha).symm

theorem query_among {q : Query} (ok : Bool → Bool) (hok : ∀ r, ok r = false ↔ q.Fails r) :
    Among (M := M) (B := B) i (Between fresh o pid i) (query q)
      (fun r => Outcome fresh o pid i (ok r)) E :=
  run_outcome (c := .query q) ok (by trivial) hok

/-- A command that never makes the script undo. -/
theorem run_between {c : Cmd} (hc : c.Plain) (hf : ∀ r, ¬ c.Fails r) :
    Among (M := M) (B := B) i (Between fresh o pid i) (run c) (fun _ => Between fresh o pid i) E :=
  (run_among hc).post fun r _ h => h.1.2 (hf r)

theorem query_between {q : Query} (hf : ∀ r, ¬ q.Fails r) :
    Among (M := M) (B := B) i (Between fresh o pid i) (query q)
      (fun _ => Between fresh o pid i) E :=
  run_between (by trivial) hf

end Rules

/-! ### The `undo` functions -/

section Undo

variable [DecidableEq ι] {α : Type} {o : Options} {pid : ℕ} {i : ι} {E : ℕ → Assertion ι M B}

/-- **`undo_lock`.** -/
theorem undoLock_among :
    Among i (Undoing o pid i) (undoLock pid) (fun _ => Undone o pid i) E := by
  -- a file with another process id is not the one of the run
  have hstable (owner : Option ℕ) : StableAmong (M := M) (B := B) i fun x =>
      Undoing o pid i x ∧ (owner.all (· = pid) = false → holder x.2 ≠ some i) := by
    refine Undoing.stable.and (Stable.imp _ (stable_of_step fun past a w w' ha h hw => ?_))
    exact fun hmine => h (holder_of_concat (fun e he => absurd he (ha e)) hmine).1
  have hcat : Among (M := M) (B := B) i (Undoing o pid i) (issue .undo .catLock)
      (fun (owner : Option ℕ) x =>
        Undoing o pid i x ∧ (owner.all (· = pid) = false → holder x.2 ≠ some i)) E := by
    refine issue_among Undoing.stable hstable fun (owner : Option ℕ) w w' past h hw => ?_
    have hown : ∀ e, (.inl (i, ⟨⟨.undo, .catLock⟩, owner⟩) : Label ι M B) = .inl (i, e) →
        ¬ Locks e ∧ ¬ Quits e := by
      rintro e ⟨⟩
      exact ⟨id, id⟩
    refine ⟨h.step hown hw, fun howner hmine => ?_⟩
    have hlock : w.lock = some (some pid) :=
      (h.held (holder_of_concat (fun e he => (hown e he).1) hmine).1).1
    simp only [Cmd.exec] at hw
    split_ifs at hw with hcat
    rcases hcat with rfl | rfl
    · change (w.lock.join.all fun x => decide (x = pid)) = false at howner
      rw [hlock, Option.join_some, Option.all_some, decide_eq_true rfl] at howner
      cases howner
    · cases howner
  refine hcat.bind fun (owner : Option ℕ) => ?_
  by_cases howner : owner.all (· = pid) = true
  · rw [if_pos howner]
    refine Shell.Triple.ignore (K := fun _ => Undone o pid i) ?_ fun _ =>
      ret_among Undone.stable fun _ h => h
    refine issue_among (hstable owner) (fun _ => Undone.stable) fun r w w' past h hw => ?_
    refine ⟨h.1.step (a := .inl (i, ⟨⟨.undo, .act .rmLock⟩, r⟩)) ?_ hw, fun _ => ?_⟩
    · rintro e ⟨⟩
      exact ⟨id, id⟩
    · exact did_concat.mpr (Or.inr ⟨_, rfl, rfl⟩)
  · rw [if_neg howner]
    exact ret_among (hstable owner) fun x h =>
      ⟨h.1, fun hmine => absurd hmine (h.2 (eq_false_of_ne_true howner))⟩

/-- One link of the chain of `undo` functions and the links below it. -/
theorem link_among {p : Script α} {q : Script Unit} {k : ℕ}
    (hp : p.All (Call.Below k) (fun _ => True) fun _ => False)
    (hq : Among (M := M) (B := B) i (Undoing o pid i) q (fun _ => Undone o pid i) E) :
    Among i (Undoing o pid i) (p >>= fun _ => q) (fun _ => Undone o pid i) E :=
  (stays_undoing (hp.mono (fun _ => Call.Below.stays) (fun _ h => h) fun _ h => h)).bind fun _ => hq

variable (v : Vars)

theorem undoConf_among :
    Among (M := M) (B := B) i (Undoing o v.pid i) (undoConf v) (fun _ => Undone o v.pid i) E :=
  link_among (undo_below Nat.le.refl) (link_among (undo_below Nat.le.refl) undoLock_among)

theorem undoActScripts_among : Among (M := M) (B := B) i (Undoing o v.pid i) (undoActScripts v)
    (fun _ => Undone o v.pid i) E :=
  link_among (when_all (undo_below Nat.le.refl)) (undoConf_among v)

theorem undoDumpFile_among : Among (M := M) (B := B) i (Undoing o v.pid i) (undoDumpFile v)
    (fun _ => Undone o v.pid i) E :=
  link_among (when_all (undo_below Nat.le.refl)) (undoActScripts_among v)

theorem undoPrivate_among : Among (M := M) (B := B) i (Undoing o v.pid i) (undoPrivate v)
    (fun _ => Undone o v.pid i) E :=
  link_among (when_all removePrivate_below) (undoDumpFile_among v)

theorem undoRoot_among : Among (M := M) (B := B) i (Undoing o v.pid i) (undoRoot v)
    (fun _ => Undone o v.pid i) E :=
  link_among (undo_below Nat.le.refl) (undoPrivate_among v)

theorem undoQuotaInit_among : Among (M := M) (B := B) i (Undoing o v.pid i) (undoQuotaInit v)
    (fun _ => Undone o v.pid i) E :=
  link_among (when_all (undo_below Nat.le.refl)) (undoRoot_among v)

theorem undoSync_among : Among (M := M) (B := B) i (Undoing o v.pid i) (undoSync v)
    (fun _ => Undone o v.pid i) E :=
  link_among (when_all (undo_below Nat.le.refl)) (undoQuotaInit_among v)

theorem restore_among (a : Action) : Among (M := M) (B := B) i (Undoing o v.pid i)
    (restore a >>= fun _ => undoSync v) (fun _ => Undone o v.pid i) E :=
  link_among (k := a.link) (ignore_all (issue_all (Nat.le_refl a.link))) (undoSync_among v)

theorem undoSuspend_among : Among (M := M) (B := B) i (Undoing o v.pid i) (undoSuspend v)
    (fun _ => Undone o v.pid i) E :=
  link_among (undo_below Nat.le.refl) (undoSync_among v)

theorem undoDump_among : Among (M := M) (B := B) i (Undoing o v.pid i) (undoDump v)
    (fun _ => Undone o v.pid i) E :=
  link_among (undo_below Nat.le.refl) (undoSuspend_among v)

theorem undoSourceStage_among : Among (M := M) (B := B) i (Undoing o v.pid i) (undoSourceStage v)
    (fun _ => Undone o v.pid i) E := by
  unfold undoSourceStage
  split_ifs
  · exact link_among (undo_below Nat.le.refl) (undoSuspend_among v)
  · exact link_among (when_all (undo_below Nat.le.refl))
      (link_among (when_all (undo_below Nat.le.refl)) (undoSync_among v))

theorem undoQuotaDump_among : Among (M := M) (B := B) i (Undoing o v.pid i) (undoQuotaDump v)
    (fun _ => Undone o v.pid i) E :=
  link_among (undo_below Nat.le.refl) (undoSourceStage_among v)

theorem undoCopyQuota_among : Among (M := M) (B := B) i (Undoing o v.pid i) (undoCopyQuota v)
    (fun _ => Undone o v.pid i) E :=
  link_among (undo_below Nat.le.refl) (undoQuotaDump_among v)

theorem undoUndump_among : Among (M := M) (B := B) i (Undoing o v.pid i) (undoUndump v)
    (fun _ => Undone o v.pid i) E :=
  link_among (undo_below Nat.le.refl) (undoCopyQuota_among v)

end Undo

/-! ### The stages -/

section Stages

variable [DecidableEq ι] {fresh : Bool} {o : Options} {pid : ℕ} {i : ι}

/-- A step that gives up if it fails. -/
theorem act_giveUp {a : Action} {q : Script Unit} {n : ℕ} (ha : a.Checked)
    (hq : Goes (M := M) (B := B) o pid i (Undoing o pid i) q fun _ => Undone o pid i)
    (hn : n ≠ migErrLocked) :
    Goes (M := M) (B := B) o pid i (Between fresh o pid i) ((act a).orDo (giveUp q n))
      fun _ => Between fresh o pid i :=
  orDo_among (act_among ha) (giveUp_among hq hn)

/-- A check after which the script gives up if it fails. -/
theorem query_giveUp {c : Query} {n : ℕ} (hc : ∀ r, r = false ↔ c.Fails r) (hn : n ≠ migErrLocked) :
    Goes (M := M) (B := B) o pid i (Between fresh o pid i)
      ((query c).orDo (giveUp (undoLock pid) n)) fun _ => Between fresh o pid i :=
  orDo_among (query_among id hc) (giveUp_among undoLock_among hn)

/-- A live migration gives up whenever it likes. -/
theorem giveUp_live {n : ℕ} {Q : Unit → Assertion ι M B} (ho : o.online = true)
    (hn : n ≠ migErrLocked) :
    Goes o pid i (Between fresh o pid i) (giveUp (undoLock pid) n) Q :=
  (giveUp_among undoLock_among hn).pre fun _ h => h.undoing (Or.inl ho)

/-- A check of a live migration. -/
theorem query_live {c : Query} {q : Script Unit} (hc : ∀ r, ¬ c.Fails r)
    (hq : Goes (M := M) (B := B) o pid i (Between fresh o pid i) q fun _ => Between fresh o pid i) :
    Goes (M := M) (B := B) o pid i (Between fresh o pid i) ((query c).orDo q)
      fun _ => Between fresh o pid i :=
  (query_between hc).orDo (ret_among Between.stable fun _ h => h) hq

theorem checkCptProps_goes (ho : o.online = true) :
    Goes (M := M) (B := B) o pid i (Between fresh o pid i) (checkCptProps pid o)
      fun _ => Between fresh o pid i := by
  refine (query_between fun _ => id).bind fun version => ?_
  refine (when_between fun _ => ?_).bind fun _ => (query_between fun _ => id).bind fun caps =>
    when_between fun _ => ?_
  · exact query_live (fun _ => id) (giveUp_live ho (by decide))
  · exact query_live (fun _ => id) (when_between fun _ => giveUp_live ho (by decide))

theorem checkOnline_goes (ho : o.online = true) :
    Goes (M := M) (B := B) o pid i (Between fresh o pid i) (checkOnline pid o)
      fun _ => Between fresh o pid i := by
  refine (query_between fun _ => id).bind fun cptcheck => ?_
  refine (when_between fun _ => ?_).bind fun _ => (query_between fun _ => id).bind fun ipv6 =>
    when_between fun _ => ?_
  · exact (query_between fun _ => id).bind fun _ => when_between fun _ => checkCptProps_goes ho
  · exact query_live (fun _ => id) (when_between fun _ => giveUp_live ho (by decide))

theorem checkNodes_goes (status : Status) :
    Goes (M := M) (B := B) o pid i (Outcome fresh o pid i !status.deleted) (checkNodes pid o status)
      fun _ => Between fresh o pid i := by
  refine (when_among (giveUp_among undoLock_among (by decide))).bind fun _ => ?_
  refine (when_between fun h => giveUp_live ?_ (by decide)).bind fun _ => ?_
  · exact (Bool.and_eq_true_iff.mp h).1
  refine (query_giveUp (fun _ => Iff.rfl) (by decide)).bind fun _ => ?_
  refine (query_giveUp (fun _ => Iff.rfl) (by decide)).bind fun _ => ?_
  refine (when_between fun ho => ?_).bind fun _ => ?_
  · exact (query_live (fun _ => id) (giveUp_live ho (by decide))).bind fun _ =>
      query_live (fun _ => id) (giveUp_live ho (by decide))
  refine (query_among not fun r => by simp [Query.Fails]).bind fun found => ?_
  refine (when_among (giveUp_among undoLock_among (by decide))).bind fun _ => ?_
  exact when_between checkOnline_goes

/-- While the configuration is read the run has not tried to remove the lock file. -/
abbrev Reading (o : Options) (pid : ℕ) (i : ι) (ok : Bool) : Assertion ι M B := fun x =>
  Outcome true o pid i ok x ∧ ¬ Did Tries x.2 i

theorem Reading.stable {ok : Bool} : StableAmong (M := M) (B := B) i (Reading o pid i ok) :=
  Outcome.stable.and untried_stable

omit [DecidableEq ι] in
theorem Outcome.held {ok : Bool} {x : World M B × List (Label ι M B)}
    (h : Outcome fresh o pid i ok x) : Held pid i x := by
  cases ok with
  | false => exact (h.1 rfl).held
  | true => exact (h.2 rfl).held

/-- What is read ends the shell, or nothing changes. -/
theorem source_goes (f : Sourced) {ok : Bool} :
    Goes (M := M) (B := B) o pid i (Reading o pid i ok) (source f) fun _ => Reading o pid i ok := by
  have hsource : Goes (M := M) (B := B) o pid i (Reading o pid i ok) (run (.source f))
      fun (r : Bool) x => (r = true → Reading o pid i ok x) ∧ (r = false → Over o pid i x) := by
    refine issue_among Reading.stable
      (fun r => (Reading.stable.imp _).and (Over.stable.imp _)) fun (r : Bool) w w' past h hw => ?_
    have hw' : Label.exec w (.inl (i, ⟨⟨.main, .source f⟩, r⟩)) = some w' := hw
    have htries : ¬ Tries (M := M) (B := B) ⟨⟨.main, .source f⟩, r⟩ := fun h => by cases h
    constructor
    · rintro rfl
      have hquits : ¬ Quits (M := M) (B := B) ⟨⟨.main, .source f⟩, true⟩ := fun h => by cases h
      refine ⟨⟨fun hok => (h.1.1 hok).step ?_ hw', fun hok => (h.1.2 hok).step ?_ hw'⟩,
        not_did_concat h.2 ?_⟩
      · rintro e ⟨⟩
        exact ⟨id, hquits⟩
      · rintro e ⟨⟩
        exact ⟨id, hquits, And.right, htries⟩
      · rintro e ⟨⟩
        exact htries
    · rintro rfl
      exact over_of_quits h.1.held h.2 rfl id htries hw'
  refine hsource.orDo ?_ ?_
  · exact ret_among ((Reading.stable.imp _).and (Over.stable.imp _)) fun _ h => h.1 rfl
  · exact Shell.Triple.exit ((Reading.stable.imp _).and (Over.stable.imp _)) fun _ h =>
      ⟨by decide, h.2 rfl⟩

theorem readConf_goes :
    Goes (M := M) (B := B) o pid i (Between true o pid i) (readConf pid)
      fun _ => Between true o pid i := by
  have hstart : Goes (M := M) (B := B) o pid i (Between true o pid i) (source .vzconf)
      fun _ => Reading o pid i true :=
    (source_goes .vzconf).pre fun _ h => ⟨⟨Bool.noConfusion, fun _ => h⟩, h.untried rfl⟩
  refine hstart.bind fun _ => (source_goes .vpsconf).bind fun _ => ?_
  have hremote : Goes (M := M) (B := B) o pid i (Reading o pid i true) (run .remoteConf)
      fun r => Reading o pid i !(r.root = "" || r.priv = "") := by
    refine ((run_among (by trivial)).pre fun _ h => h.1.2 rfl).post fun r x h => ⟨⟨?_, ?_⟩, h.2 rfl⟩
    · exact fun hr => h.1.1 (by simpa [Cmd.Fails, or_iff_not_imp_left] using hr)
    · exact fun hr => h.1.2 (by simpa [Cmd.Fails, or_iff_not_imp_left] using hr)
  refine hremote.bind fun (remote : RemoteConf) => (source_goes .remoteConf).bind fun _ => ?_
  refine Shell.Triple.pre (P := Outcome true o pid i !(remote.root = "" || remote.priv = "")) ?_
    fun _ h => h.1
  exact (when_among (giveUp_among undoLock_among (by decide))).bind fun _ =>
    ret_among Between.stable fun _ h => h

variable (v : Vars)

theorem checkConf_goes :
    Goes (M := M) (B := B) v.opts v.pid i (Between fresh v.opts v.pid i) (checkConf v)
      fun _ x => Between fresh v.opts v.pid i x ∧ v.opts.checkOnly = false := by
  refine (when_between fun _ => query_giveUp (fun _ => Iff.rfl) (by decide)).bind fun _ => ?_
  refine (when_between fun _ => ?_).bind fun _ => Shell.Triple.when (fun hc => ?_) fun hc => ?_
  · refine (query_among not fun r => by simp [Query.Fails]).bind fun inUse => ?_
    exact when_among (giveUp_among undoLock_among (by decide))
  · exact (giveUp_among undoLock_among (by decide)).pre fun _ h => h.undoing (Or.inr hc)
  · exact ret_among Between.stable fun _ h => ⟨h, hc⟩

theorem copyConf_goes :
    Goes (M := M) (B := B) v.opts v.pid i (Between fresh v.opts v.pid i) (copyConf v)
      fun _ => Between fresh v.opts v.pid i := by
  refine (act_giveUp (by trivial) undoLock_among (by decide)).bind fun _ => ignore_between ?_
  exact run_between (by trivial) fun _ h => h.1

theorem prepare_goes :
    Goes (M := M) (B := B) v.opts v.pid i (Between fresh v.opts v.pid i) (prepare v)
      fun _ => Between fresh v.opts v.pid i := by
  refine (run_outcome (fun r : ℕ => !(r ≠ 20 && r ≠ 21 && r ≠ 0))
    (by trivial) fun r => ?_).bind fun (ret : ℕ) => ?_
  · simp [Cmd.Fails, and_assoc]
  refine (when_among (giveUp_among (undoConf_among v) (by decide))).bind fun _ => ?_
  refine (when_between fun _ => act_giveUp (by trivial) (undoConf_among v) (by decide)).bind
    fun _ => ?_
  refine (when_between fun _ => act_giveUp (by trivial) (undoActScripts_among v)
    (by decide)).bind fun _ => ?_
  refine (act_giveUp (by trivial) (undoDumpFile_among v) (by decide)).bind fun _ => ?_
  refine (when_between fun _ => act_giveUp (by trivial) (undoPrivate_among v)
    (by decide)).bind fun _ => ?_
  refine (act_giveUp (by trivial) (undoPrivate_among v) (by decide)).bind fun _ => when_between
    fun _ => ?_
  exact (act_giveUp (by trivial) (undoRoot_among v) (by decide)).bind fun _ =>
    act_giveUp (by trivial) (undoQuotaInit_among v) (by decide)

/-- The script goes on after it has removed the lock file. -/
theorem compactSnapshot_goes :
    Goes (M := M) (B := B) v.opts v.pid i (Between fresh v.opts v.pid i) (compactSnapshot v)
      fun _ => Between false v.opts v.pid i := by
  have hroot : Goes (M := M) (B := B) v.opts v.pid i (Undoing v.opts v.pid i) (undoRoot v)
      fun _ => Between false v.opts v.pid i :=
    (undoRoot_among v).post fun _ _ h => h.between
  refine Shell.Triple.pre (P := Between false v.opts v.pid i) ?_ fun _ h => h.anyway
  refine (when_between fun _ => ?_).bind fun _ => when_between fun _ => ?_
  · exact orDo_among (run_outcome (c := .compact) id (by trivial) fun _ => Iff.rfl) hroot
  · exact orDo_among (run_outcome (c := .snapshot) id (by trivial) fun _ => Iff.rfl) hroot

theorem getTopDelta_goes :
    Goes (M := M) (B := B) v.opts v.pid i (Between fresh v.opts v.pid i) (getTopDelta v)
      fun _ => Between fresh v.opts v.pid i := by
  unfold getTopDelta
  split_ifs
  · have hinfo (r : Option String) : r.isSome = false ↔ r = none :=
      Option.isSome_eq_false_iff.trans Option.isNone_iff_eq_none
    refine (run_outcome (c := .ploopInfo) Option.isSome (by trivial) hinfo).bind
      fun (info : Option String) => ?_
    cases info with
    | some top => exact ret_among Outcome.stable fun _ h => h.2 rfl
    | none =>
      refine Shell.Triple.bind (Q := fun _ => Undone v.opts v.pid i) ?_ fun _ =>
        Shell.Triple.exit Undone.stable fun _ h => ⟨by decide, h.over⟩
      exact (undoRoot_among v).pre fun _ h => h.1 rfl
  · exact ret_among Between.stable fun _ h => h

theorem syncPrivate_goes (top : String) :
    Goes (M := M) (B := B) v.opts v.pid i (Between fresh v.opts v.pid i) (syncPrivate v top)
      fun _ => Between fresh v.opts v.pid i := by
  refine (run_outcome (fun r : ℕ => !(r ≠ 24 && r ≠ 0))
    (by trivial) fun r => ?_).bind fun (ret : ℕ) => ?_
  · simp [Cmd.Fails]
  refine (when_among (giveUp_among (undoSync_among v) (by decide))).bind fun _ => ?_
  refine when_between fun _ => (query_between fun _ => id).bind fun files => ?_
  refine when_between fun _ => (query_between fun _ => id).bind fun present => ?_
  exact when_between fun _ => ignore_between (query_between fun _ => id)

theorem ploopCopy_goes (freeze : Freeze) (top : String) :
    Goes (M := M) (B := B) o pid i (Between fresh o pid i) (ploopCopy freeze top)
      (Outcome fresh o pid i) := by
  have hcopy (feedback : Bool) : Goes (M := M) (B := B) o pid i (Between fresh o pid i)
      (run (.ploopCopy feedback freeze top)) (Outcome fresh o pid i) :=
    run_outcome (c := .ploopCopy feedback freeze top) id (by trivial) fun _ => Iff.rfl
  have hgo {α : Type} {p : Script α} {Q : α → Assertion ι M B}
      (hp : Goes o pid i (Between fresh o pid i) p Q) :
      Goes o pid i (Outcome fresh o pid i true) p Q :=
    hp.pre fun _ h => h.2 rfl
  refine (query_among id fun _ => Iff.rfl).bind fun dev => ?_
  cases dev with
  | false => exact ret_among Outcome.stable fun _ h => h
  | true =>
    refine hgo ((query_among id fun _ => Iff.rfl).bind fun delta => ?_)
    cases delta with
    | false => exact ret_among Outcome.stable fun _ h => h
    | true =>
      refine hgo ((ignore_between ?_).bind fun _ => ?_)
      · exact run_between (by trivial) fun _ h => h.1
      refine (run_between (by trivial) fun _ => id).bind
        fun (err : ℕ) => ?_
      by_cases herr : err = 38
      · rw [if_pos herr]
        exact hcopy false
      · rw [if_neg herr]
        exact (query_between fun _ => id).bind fun alive => hcopy alive

theorem suspendOrStop_goes (top : String) :
    Goes (M := M) (B := B) v.opts v.pid i (Between fresh v.opts v.pid i) (suspendOrStop v top)
      fun _ => Between fresh v.opts v.pid i := by
  have hdump : Goes (M := M) (B := B) v.opts v.pid i (Between fresh v.opts v.pid i)
      ((act .dump).orDo (giveUp (undoSuspend v) migErrCheckpoint) >>= fun _ =>
        (act .scpDump).orDo (giveUp (undoDump v) migErrCopy))
      fun _ => Between fresh v.opts v.pid i :=
    (act_giveUp (by trivial) (undoSuspend_among v) (by decide)).bind fun _ =>
      act_giveUp (by trivial) (undoDump_among v) (by decide)
  unfold suspendOrStop suspendAndDump suspendCt stopCt
  split_ifs
  · exact (orDo_among (ploopCopy_goes _ _) (giveUp_among (restore_among v _) (by decide))).bind
      fun _ => hdump
  · exact (act_giveUp (by trivial) (undoSync_among v) (by decide)).bind fun _ => hdump
  · exact (orDo_among (ploopCopy_goes _ _) (giveUp_among (restore_among v _) (by decide))).bind
      fun _ => act_giveUp (by trivial) (restore_among v _) (by decide)
  · exact act_giveUp (by trivial) (undoSync_among v) (by decide)
  · exact when_between fun _ => act_giveUp (by trivial) (undoSync_among v) (by decide)

theorem syncPrivate2_goes :
    Goes (M := M) (B := B) v.opts v.pid i (Between fresh v.opts v.pid i) (syncPrivate2 v)
      fun _ => Between fresh v.opts v.pid i := by
  refine when_between fun _ => ?_
  refine (run_outcome (fun r : ℕ => !(r ≠ 0)) (by trivial) fun r => ?_).bind fun (ret : ℕ) => ?_
  · simp [Cmd.Fails]
  · exact when_among (giveUp_among (undoSourceStage_among v) (by decide))

theorem syncQuota_goes :
    Goes (M := M) (B := B) v.opts v.pid i (Between fresh v.opts v.pid i) (syncQuota v)
      fun _ => Between fresh v.opts v.pid i := by
  refine when_between fun _ => ?_
  refine (act_giveUp (by trivial) (undoQuotaDump_among v) (by decide)).bind fun _ => ?_
  exact (act_giveUp (by trivial) (undoQuotaDump_among v) (by decide)).bind fun _ =>
    act_giveUp (by trivial) (undoCopyQuota_among v) (by decide)

/-- **The last stage.** Of a run that is not live nothing more is known than before it. -/
theorem restoreOrStart_goes (hc : v.opts.checkOnly = false) :
    Goes (M := M) (B := B) v.opts v.pid i (Between fresh v.opts v.pid i) (restoreOrStart v)
      fun _ => Over v.opts v.pid i := by
  have hstart (ho : v.opts.online = false) {p : Script Unit}
      (hp : Goes (M := M) (B := B) v.opts v.pid i (Between fresh v.opts v.pid i) p
        fun _ => Between fresh v.opts v.pid i) :
      Goes v.opts v.pid i (Between fresh v.opts v.pid i) p fun _ => Over v.opts v.pid i :=
    hp.post fun _ _ h => h.over ho hc
  have hignore (a : Action) : Goes (M := M) (B := B) v.opts v.pid i (Undone v.opts v.pid i)
      (Prog.ignore (act a)) fun _ => Undone v.opts v.pid i :=
    stays_undone (ignore_all (act_all fun _ => ⟨id, id⟩))
  unfold restoreOrStart
  split_ifs with ho hr hm
  · refine (act_giveUp (by trivial) (undoCopyQuota_among v) (by decide)).bind fun _ => ?_
    refine (act_giveUp (by trivial) (undoUndump_among v) (by decide)).bind fun _ => ?_
    have hunlock : Goes (M := M) (B := B) v.opts v.pid i (Between fresh v.opts v.pid i)
        (undoLock v.pid) fun _ => Undone v.opts v.pid i :=
      undoLock_among.pre fun _ h => h.undoing (Or.inl ho)
    refine hunlock.bind fun _ => (hignore _).bind fun _ => (hignore _).bind fun _ => ?_
    exact (hignore _).post fun _ _ h => h.over
  all_goals refine hstart (eq_false_of_ne_true ho) ?_
  · exact act_giveUp (by trivial) (undoCopyQuota_among v) (by decide)
  · exact act_giveUp (by trivial) (undoCopyQuota_among v) (by decide)
  · exact when_between fun _ => act_giveUp (by trivial) (undoCopyQuota_among v) (by decide)

theorem clone_goes :
    Goes (M := M) (B := B) v.opts v.pid i (Between fresh v.opts v.pid i) (clone v)
      fun _ => Over v.opts v.pid i := by
  refine (checkConf_goes v).bind fun _ => Shell.Triple.of_pure (fun _ h => h.2) fun hc => ?_
  refine Shell.Triple.pre (P := Between fresh v.opts v.pid i) ?_ fun _ h => h.1
  refine (copyConf_goes v).bind fun _ => (prepare_goes v).bind fun _ => ?_
  refine (compactSnapshot_goes v).bind fun _ => (getTopDelta_goes v).bind fun top => ?_
  refine (syncPrivate_goes v top).bind fun _ => (suspendOrStop_goes v top).bind fun _ => ?_
  refine (syncPrivate2_goes v).bind fun _ => (syncQuota_goes v).bind fun _ => ?_
  exact (restoreOrStart_goes v hc).bind fun _ => Shell.Triple.exit Over.stable fun _ h =>
    ⟨by decide, h⟩

theorem migrate_goes (conf : Conf) :
    Goes (M := M) (B := B) o pid i (Between true o pid i) (migrate pid o conf)
      fun _ => Over o pid i := by
  refine (run_outcome (fun r : Status => !r.deleted) (by trivial) fun r => ?_).bind
    fun (status : Status) => ?_
  · simp [Cmd.Fails]
  refine (checkNodes_goes status).bind fun _ => readConf_goes.bind fun remote => ?_
  refine (run_between (by trivial) fun _ => id).bind
    fun (ploop : Bool) => ?_
  exact clone_goes { pid, opts := o, conf, status, remote, ploop }

end Stages

/-! ### The whole script -/

/-- The run has not got past `lock_ct` yet. -/
structure Early (i : ι) (x : World M B × List (Label ι M B)) : Prop where
  locked : ¬ Locked x.2 i
  quits : ¬ Did Quits x.2 i
  tries : ¬ Did Tries x.2 i
  fails : ¬ Did Fails x.2 i

section Early

variable {o : Options} {pid : ℕ} {i : ι} {w w' : World M B} {past : List (Label ι M B)}
  {a : Label ι M B}

theorem Early.over {x : World M B × List (Label ι M B)} (h : Early i x) : Over o pid i x :=
  ⟨fun hmine => absurd (locked_of_holder hmine) h.locked,
    fun _ hmine => absurd (locked_of_holder hmine) h.locked, fun ht => absurd ht h.tries⟩

theorem Early.step (h : Early i (w, past))
    (ha : ∀ e, a = .inl (i, e) → ¬ Locks e ∧ ¬ Quits e ∧ ¬ Tries e ∧ ¬ Fails e) :
    Early i (w', past ++ [a]) :=
  ⟨not_did_concat h.locked fun e he => (ha e he).1,
    not_did_concat h.quits fun e he => (ha e he).2.1,
    not_did_concat h.tries fun e he => (ha e he).2.2.1,
    not_did_concat h.fails fun e he => (ha e he).2.2.2⟩

/-- The run gets past `lock_ct`. -/
theorem Early.enter {r : Created} (h : Early i (w, past)) (hlock : w'.lock = some (some pid)) :
    Between true o pid i (w', past ++ [.inl (i, ⟨⟨.main, .lock pid⟩, r⟩)]) := by
  have htries : ¬ Did Tries (past ++ [.inl (i, ⟨⟨.main, .lock pid⟩, r⟩)]) i :=
    not_did_concat h.tries (by rintro e ⟨⟩ ⟨⟩)
  refine ⟨fun _ => ⟨hlock, fun hu => htries hu.tried, fun hs => ?_⟩,
    not_did_concat h.quits (by rintro e ⟨⟩; exact id), fun hf => ?_, fun ht => absurd ht htries,
    fun _ => htries⟩
  · rcases stolen_concat.mp hs with hs | ⟨j, e, ⟨⟩, hne, -, -⟩
    · exact h.locked hs.locked
    · exact hne rfl
  · exact absurd hf (not_did_concat h.fails (by rintro e ⟨⟩; exact fun h => h.2))

variable [DecidableEq ι] {E : ℕ → Assertion ι M B}

theorem Early.stable : StableAmong (M := M) (B := B) i (Early i) :=
  stable_of_step fun _ _ _ _ ha h _ => h.step fun e he => absurd he (ha e)

theorem stable_did {P : (vzctl M B).Event → Prop} :
    StableAmong (M := M) (B := B) i fun x => Did P x.2 i :=
  stable_of_step fun _ _ _ _ _ h _ => h.concat

theorem run_early {c : Cmd} (hc : c.Plain) (hf : ∀ r, ¬ c.Fails r) :
    Among (M := M) (B := B) i (Early i) (run c) (fun r x =>
      Early i x ∧ (c.Sees r → Did Sees x.2 i)) E := by
  refine issue_among Early.stable (fun r => Early.stable.and (stable_did.imp _))
    fun r w w' past h _ => ⟨h.step ?_, fun hs => ?_⟩
  · rintro e ⟨⟩
    exact ⟨Cmd.not_locks hc.ne_lock _, hc.not_quits _, hc.ne_rmLock, fun h => hf _ h.2⟩
  · exact did_concat.mpr (Or.inr ⟨_, rfl, hs⟩)

/-- **`lock_ct`** takes the lock or finds a lock file. -/
theorem lockCt_among (hE : ∀ x, Early i x → E 1 x) :
    Among (M := M) (B := B) i (Early i) (lockCt pid) (fun ok x =>
      (ok = true → Between true o pid i x) ∧ (ok = false → Early i x ∧ Did Sees x.2 i)) E := by
  have hlock : Among (M := M) (B := B) i (Early i) (run (.lock pid)) (fun (r : Bool) x =>
      (r = true → Between true o pid i x) ∧ (r = false → Early i x)) E := by
    refine issue_among Early.stable (fun r => (Between.stable.imp _).and (Early.stable.imp _))
      fun (r : Created) w w' past h hw => ?_
    constructor
    · intro hok
      obtain ⟨-, pid', hpid, hlock⟩ := Cmd.exec_of_locks hw hok
      obtain rfl := Cmd.lock.inj hpid
      exact h.enter hlock
    · intro hno
      refine h.step ?_
      rintro e ⟨⟩
      exact ⟨Bool.eq_false_iff.mp hno, id, fun h => (by cases h), fun h => h.2⟩
  refine hlock.bind fun (locked : Bool) => ?_
  cases locked with
  | true =>
    refine ret_among ((Between.stable.imp _).and (Early.stable.imp _)) fun x h => ?_
    exact ⟨fun _ => h.1 rfl, fun h => by cases h⟩
  | false =>
    refine Shell.Triple.pre (P := Early i) ?_ fun _ h => h.2 rfl
    refine (run_early (by trivial) fun _ => id).bind
      fun (present : Bool) => ?_
    cases present with
    | false =>
      exact Shell.Triple.exit (Early.stable.and (stable_did.imp _)) fun x h => hE x h.1
    | true =>
      have hseen : StableAmong (M := M) (B := B) i fun x => Early i x ∧ Did Sees x.2 i :=
        Early.stable.and stable_did
      have hcat : Among (M := M) (B := B) i (fun x => Early i x ∧ Did Sees x.2 i)
          (run .catLock).ignore (fun _ x => Early i x ∧ Did Sees x.2 i) E := by
        refine Shell.Triple.ignore (K := fun _ x => Early i x ∧ Did Sees x.2 i)
          (issue_among hseen (fun _ => hseen) fun r w w' past h _ => ⟨h.1.step ?_, h.2.concat⟩)
          fun _ => ret_among hseen fun _ h => h
        rintro e ⟨⟩
        exact ⟨id, id, fun h => (by cases h), fun h => h.2⟩
      refine Shell.Triple.pre (P := fun x => Early i x ∧ Did Sees x.2 i) ?_
        fun _ h => ⟨h.1, h.2 rfl⟩
      exact hcat.bind fun _ => ret_among hseen fun x h => ⟨fun h => (by cases h), fun _ => h⟩

/-- **The script.** When a run has exited it has let go of the lock file if it came to `undo_lock`,
and if it is refused it has found a lock file that it had not created. -/
theorem vzclone_among (conf : Conf) :
    Among (M := M) (B := B) i (Early i) (vzclone pid o conf) (fun _ => Over o pid i) fun n x =>
      Over o pid i x ∧ (n = migErrLocked → ¬ Locked x.2 i ∧ Did Sees x.2 i) := by
  have hother {n : ℕ} (hn : n ≠ migErrLocked) {x : World M B × List (Label ι M B)}
      (h : Early i x) :
      Over o pid i x ∧ (n = migErrLocked → ¬ Locked x.2 i ∧ Did Sees x.2 i) :=
    ⟨h.over, fun h => absurd h hn⟩
  refine Shell.Triple.bind (Q := fun _ => Early i) ?_ fun _ =>
    Shell.Triple.bind (Q := fun _ => Between true o pid i) ?_ fun _ => ?_
  · refine Shell.Triple.orDo (K := fun _ => Early i) ?_ ?_ ?_
    · exact (run_early (c := .query .vzconf) trivial fun _ => id).post fun _ _ h => h.1
    · exact ret_among Early.stable fun _ h => h
    · exact Shell.Triple.exit Early.stable fun _ h => hother (by decide) h
  · refine (lockCt_among (o := o) fun _ h => hother (by decide) h).orDo ?_ ?_
    · exact ret_among ((Between.stable.imp _).and ((Early.stable.and stable_did).imp _))
        fun _ h => h.1 rfl
    · refine Shell.Triple.exit ((Between.stable.imp _).and ((Early.stable.and stable_did).imp _))
        fun _ h => ?_
      obtain ⟨hearly, hseen⟩ := h.2 rfl
      exact ⟨hearly.over, fun _ => ⟨hearly.locked, hseen⟩⟩
  · exact (migrate_goes conf).conseq (fun _ h => h) (fun _ _ h => h)
      fun _ _ h => ⟨h.2, fun hn => absurd hn h.1⟩

end Early

/-! ### All interleavings -/

section Interleavings

variable {pid : ι → ℕ} {s t : (ι → Script Unit) × World M B} {past : List (Label ι M B)}

/-- What holds of the lock file and of all runs. -/
structure Kept (pid : ι → ℕ) (s : (ι → Script Unit) × World M B) (past : List (Label ι M B)) :
    Prop where
  locks : ∀ i, (s.1 i).All (fun c => ∀ p, c.cmd = .lock p → p = pid i) (fun _ => True) fun _ => True
  lock : s.2.lock = (lockFile past).map (Option.map pid)
  mine : ∀ i, Locked past i → holder past = some i ∨ Unlocked past i ∨ Stolen past i

theorem vzclone_locks (pid : ℕ) (o : Options) (conf : Conf) :
    (vzclone pid o conf).All (fun c => ∀ p, c.cmd = .lock p → p = pid) (fun _ => True)
      fun _ => True := by
  refine Prog.All.bind (Q := fun _ => True) ?_ fun _ _ =>
    Prog.All.bind (Q := fun _ => True) ?_ fun _ _ => ?_
  · have hconf : (query .vzconf).All (fun c => ∀ p, c.cmd = .lock p → p = pid) (fun _ => True)
        fun _ => True := by
      refine ⟨fun p hp => ?_, fun _ => trivial⟩
      cases hp
    exact Prog.All.orDo hconf trivial trivial
  · refine Prog.All.orDo ((lockCt_looks pid).mono ?_ (fun _ h => h) fun _ _ => trivial) trivial
      trivial
    rintro ⟨i, c⟩ (rfl | hc) p hp
    · exact (Cmd.lock.inj hp).symm
    · obtain rfl : c = .lock p := hp
      exact hc.elim
  · exact (migrate_inside pid o conf).mono (fun c hc p hp => absurd hp (hc p)) (fun _ h => h)
      fun _ h => h

theorem Kept.write (h : Kept pid s past) {n : Write M B} (hp : t.1 = s.1)
    (hw : t.2.lock = s.2.lock) : Kept pid t (past ++ [.inr n]) := by
  have hfile : lockFile (past ++ [.inr n]) = lockFile past := lockFile_concat
  refine ⟨fun i => hp ▸ h.locks i, by rw [hw, hfile]; exact h.lock, fun i hi => ?_⟩
  rw [holder, hfile]
  rcases locked_concat.mp hi with hi | ⟨e, ⟨⟩, -⟩
  exact (h.mine i hi).imp_right
    (Or.imp (fun h => h.concat) fun h => stolen_concat.mpr (Or.inl h))

/-- A command changes the lock file as it changes the holder. -/
theorem Kept.command {j : ι} {c : Call} {r : c.cmd.Out B} (h : Kept pid s past)
    (hc : ∀ p, c.cmd = .lock p → p = pid j) (hw : c.cmd.exec r s.2 = some t.2)
    (hlocks : ∀ i, (t.1 i).All (fun c => ∀ p, c.cmd = .lock p → p = pid i) (fun _ => True)
      fun _ => True) :
    Kept pid t (past ++ [.inl (j, ⟨c, r⟩)]) := by
  have hkeep {i : ι} (h : Unlocked past i ∨ Stolen past i) :
      Unlocked (past ++ [.inl (j, ⟨c, r⟩)]) i ∨ Stolen (past ++ [.inl (j, ⟨c, r⟩)]) i :=
    h.imp (fun h => h.concat) fun h => stolen_concat.mpr (Or.inl h)
  have hfile : lockFile (past ++ [.inl (j, ⟨c, r⟩)]) = c.cmd.lockFile j r (lockFile past) :=
    lockFile_concat
  by_cases hl : c.cmd.Locks (c.cmd.reply B r)
  · obtain ⟨hnone, p, hp, hlock⟩ := Cmd.exec_of_locks hw hl
    have hfree : lockFile past = none := Option.map_eq_none_iff.mp (h.lock.symm.trans hnone)
    rw [Cmd.lockFile_of_locks hl] at hfile
    refine ⟨hlocks, by rw [hlock, hfile, hc p hp]; rfl, fun i hi => ?_⟩
    rcases locked_concat.mp hi with hi | ⟨e, he, -⟩
    · rcases h.mine i hi with hmine | hgone
      · rw [holder_eq_some, hfree] at hmine
        cases hmine
      · exact Or.inr (hkeep hgone)
    · exact Or.inl (holder_eq_some.mpr (by rw [hfile, (Prod.mk.inj (Sum.inl.inj he)).1]))
  have hold {i : ι} (hi : Locked (past ++ [.inl (j, ⟨c, r⟩)]) i) : Locked past i := by
    refine (locked_concat.mp hi).resolve_right ?_
    rintro ⟨e, ⟨⟩, he⟩
    exact hl he
  by_cases hu : c.cmd.Unlocks (c.cmd.reply B r)
  · rw [Cmd.lockFile_of_unlocks hu] at hfile
    refine ⟨hlocks, by rw [Cmd.exec_of_unlocks hw hu, hfile]; rfl, fun i hi => Or.inr ?_⟩
    rcases h.mine i (hold hi) with hmine | hgone
    · by_cases hij : j = i
      · subst hij
        exact Or.inl (did_concat.mpr (Or.inr ⟨⟨c, r⟩, rfl, hu⟩))
      · exact Or.inr (stolen_concat.mpr (Or.inr ⟨j, ⟨c, r⟩, rfl, hij, hu, hmine⟩))
    · exact hkeep hgone
  by_cases he : c.cmd.Empties r
  · -- the file can only be created where there is none
    obtain ⟨hnone, hlock⟩ := Cmd.exec_of_empties hw he
    have hfree : lockFile past = none := Option.map_eq_none_iff.mp (h.lock.symm.trans hnone)
    rw [Cmd.lockFile_of_empties he] at hfile
    refine ⟨hlocks, by rw [hlock, hfile]; rfl, fun i hi => Or.inr ?_⟩
    rcases h.mine i (hold hi) with hmine | hgone
    · rw [holder_eq_some, hfree] at hmine
      cases hmine
    · exact hkeep hgone
  · rw [Cmd.lockFile_eq hl hu he] at hfile
    refine ⟨hlocks, by rw [Cmd.exec_lock_eq hw hl hu he, hfile]; exact h.lock, fun i hi => ?_⟩
    rw [holder, hfile]
    exact (h.mine i (hold hi)).imp_right hkeep

variable [DecidableEq ι]

theorem Kept.step (h : Kept pid s past) {a : Label ι M B}
    (hstep : (manager ι M B).step s a = some t) : Kept pid t (past ++ [a]) := by
  rcases Shell.system_step_cases hstep with ⟨j, e, p, rfl, he, ht⟩ | ⟨n, rfl, hn, hp⟩
  · obtain ⟨c, k, r, hj, rfl, hw, rfl⟩ := Shell.step_cases he
    have hall := h.locks j
    rw [hj] at hall
    refine h.command hall.1 hw fun i => ?_
    by_cases hij : i = j
    · subst hij
      rw [ht, Function.update_self]
      exact hall.2 _
    · rw [ht, Function.update_of_ne hij]
      exact h.locks i
  · refine h.write hp ?_
    obtain ⟨-, ⟨m, hw⟩ | ⟨path, b, -, hw⟩⟩ := write_cases hn <;> rw [hw]

variable {o : ι → Options} {conf : ι → Conf} {w : World M B} {as : List (Label ι M B)}

theorem kept_run (hw : w.lock = none)
    (hrun : (manager ι M B).run (runs pid o conf, w) as = some s) : Kept pid s as := by
  have hstart : Kept pid (runs pid o conf, w) [] := by
    refine ⟨fun i => vzclone_locks _ _ _, hw, fun i hi => ?_⟩
    obtain ⟨e, ⟨⟩, -⟩ := hi
  exact Machine.labels_invariant_of_step (J := fun past s => Kept pid s past)
    (fun _ _ _ _ h hstep => h.step hstep) hstart hrun

theorem over_run {i : ι} {n : ℕ} (hrun : (manager ι M B).run (runs pid o conf, w) as = some s)
    (hexit : s.1 i = .exit n) : Over (o i) (pid i) i (s.2, as) ∧
      (n = migErrLocked → ¬ Locked as i ∧ Did Sees as i) := by
  have hnot {P : (vzctl M B).Event → Prop} : ¬ Did P ([] : List (Label ι M B)) i := by
    rintro ⟨e, ⟨⟩, -⟩
  have hstart : Early i (w, ([] : List (Label ι M B))) := ⟨hnot, hnot, hnot, hnot⟩
  exact (vzclone_among (conf i)).system_run rfl hstart hrun hexit

/-- A run that has exited does nothing any more. -/
theorem exited_run {i : ι} {n : ℕ} (hexit : s.1 i = .exit n)
    (hrun : (manager ι M B).run s as = some t) : t.1 i = .exit n ∧ ∀ e, .inl (i, e) ∉ as := by
  have hstart : s.1 i = .exit n ∧ ∀ e, (.inl (i, e) : Label ι M B) ∉ ([] : List (Label ι M B)) :=
    ⟨hexit, fun _ => List.not_mem_nil⟩
  refine Machine.labels_invariant_of_step (J := fun past (t : (ι → Script Unit) × World M B) =>
    t.1 i = .exit n ∧ ∀ e, (.inl (i, e) : Label ι M B) ∉ past) ?_ hstart hrun
  rintro past s a t ⟨hs, hpast⟩ hstep
  rcases Shell.system_step_cases hstep with ⟨j, e, p, rfl, he, ht⟩ | ⟨n, rfl, -, hp⟩
  · obtain ⟨c, k, r, hj, rfl, -, rfl⟩ := Shell.step_cases he
    have hij : i ≠ j := by
      rintro rfl
      rw [hs] at hj
      cases hj
    refine ⟨by rw [ht, Function.update_of_ne hij, hs], fun e he => ?_⟩
    rcases List.mem_append.mp he with he | he
    · exact hpast e he
    · exact hij (Prod.mk.inj (Sum.inl.inj (List.mem_singleton.mp he))).1
  · refine ⟨by rw [hp, hs], fun e he => ?_⟩
    rcases List.mem_append.mp he with he | he
    · exact hpast e he
    · cases List.mem_singleton.mp he

/-- A run that meets the condition does not leave its file behind, and neither does one whose file
another run has removed. -/
theorem holder_ne_of_releases {i : ι} {n : ℕ}
    (hrun : (manager ι M B).run (runs pid o conf, w) as = some s) (hexit : s.1 i = .exit n)
    (h : Releases (o i) as i ∨ Stolen as i) : holder as ≠ some i := by
  intro hmine
  obtain ⟨hover, -⟩ := over_run hrun hexit
  obtain ⟨-, hunlocked, hstolen⟩ := hover.held hmine
  rcases h with ⟨hu, htried⟩ | hs
  · exact hunlocked (htried (hover.letGo hu hmine))
  · exact hstolen hs

omit [DecidableEq ι] in
theorem Cmd.exec_of_sees {c : Cmd} {r : c.Out B} {w w' : World M B} (h : c.exec r w = some w')
    (hs : c.Sees (c.reply B r)) : w.lock ≠ none := by
  cases c with
  | testLock =>
    obtain rfl : r = true := hs
    simp only [Cmd.exec] at h
    split_ifs at h with hlock
    exact Option.isSome_iff_ne_none.mp hlock.symm
  | _ => exact hs.elim

theorem lock_of_sees {j : ι} {e : (vzctl M B).Event} (hs : Sees e)
    (hstep : (manager ι M B).step s (.inl (j, e)) = some t) : s.2.lock ≠ none := by
  rcases Shell.system_step_cases hstep with ⟨j, e, p, ⟨⟩, he, -⟩ | ⟨n, ⟨⟩, -⟩
  obtain ⟨c, k, r, -, rfl, hexec, -⟩ := Shell.step_cases he
  exact Cmd.exec_of_sees hexec hs

/-- **A run that is refused** has found the lock file of another run, if no run has left an empty
one. If all runs that have exited release theirs, that one has not exited. -/
theorem active_of_refused (hw : w.lock = none)
    (hrun : (manager ι M B).run (runs pid o conf, w) as = some s)
    (hall : ∀ i n, Locked as i → s.1 i = .exit n → Releases (o i) as i)
    (hempty : ∀ i, ¬ Did Empties as i) {j : ι} (hexit : s.1 j = .exit migErrLocked) :
    ∃ us e vs t, as = us ++ .inl (j, e) :: vs ∧
      (manager ι M B).run (runs pid o conf, w) us = some t ∧ ∃ i ≠ j, Active (t.1 i) us i := by
  obtain ⟨-, hrefused⟩ := over_run hrun hexit
  obtain ⟨hnot, e, he, hsees⟩ := hrefused rfl
  obtain ⟨us, vs, rfl⟩ := List.append_of_mem he
  obtain ⟨t, ht, hrest⟩ := (Machine.run_append_eq_some _).mp hrun
  obtain ⟨u, hu, -⟩ := (Machine.run_cons_eq_some _).mp hrest
  -- the lock file that the run finds is the one of some run
  have hsome := lock_of_sees hsees hu
  rw [(kept_run hw ht).lock, Ne, Option.map_eq_none_iff] at hsome
  obtain ⟨file, hfile⟩ := Option.ne_none_iff_exists'.mp hsome
  cases file with
  | none =>
    obtain ⟨i, e', he', hempties⟩ := empties_of_lockFile hfile
    exact absurd ⟨e', List.mem_append_left _ he', hempties⟩ (hempty i)
  | some i => ?_
  have hi := holder_eq_some.mpr hfile
  obtain ⟨e', he', hl⟩ := locked_of_holder hi
  have hlocked : Locked (us ++ .inl (j, e) :: vs) i := ⟨e', List.mem_append_left _ he', hl⟩
  refine ⟨us, e, vs, t, rfl, ht, i, ?_, ⟨e', he', hl⟩, fun n hn => ?_⟩
  · rintro rfl
    exact hnot hlocked
  · -- had it exited, then it would have released the file by now
    obtain ⟨hs, hnone⟩ := exited_run hn hrest
    have hreleases := (releases_append hnone).mp (hall i n hlocked hs)
    exact holder_ne_of_releases ht hn (Or.inl hreleases) hi

/-- **The lock file after a run.** In every interleaving of any number of runs, with any options and
whatever the outcomes of their commands, from a container that is not locked: the lock file, if
there is one, has the process id of the run that has created it or is empty; a run that has created
it and has exited has left it behind, unless it meets the condition or another run has removed the
file of it, and so it is with its process id, if no other run has the same; and if all runs that
have exited meet the condition and none has left an empty file, then a run is refused only at a
moment at which another one has got past `lock_ct` and has not exited. -/
theorem lock_released_iff (hw : w.lock = none)
    (hrun : (manager ι M B).run (runs pid o conf, w) as = some s) :
    s.2.lock = (lockFile as).map (Option.map pid) ∧
      (∀ i n, Locked as i → s.1 i = .exit n →
        (holder as ≠ some i ↔ Releases (o i) as i ∨ Stolen as i) ∧
        ((∀ j ≠ i, pid j ≠ pid i) →
          (s.2.lock ≠ some (some (pid i)) ↔ Releases (o i) as i ∨ Stolen as i))) ∧
      ((∀ i n, Locked as i → s.1 i = .exit n → Releases (o i) as i) →
        (∀ i, ¬ Did Empties as i) → ∀ j, s.1 j = .exit migErrLocked →
          ∃ us e vs t, as = us ++ .inl (j, e) :: vs ∧
          (manager ι M B).run (runs pid o conf, w) us = some t ∧
          ∃ i ≠ j, Active (t.1 i) us i) := by
  have hkept := kept_run hw hrun
  refine ⟨hkept.lock, fun i n hl hexit => ?_,
    fun hall hempty j hexit => active_of_refused hw hrun hall hempty hexit⟩
  have hiff : holder as ≠ some i ↔ Releases (o i) as i ∨ Stolen as i := by
    refine ⟨fun hne => ?_, holder_ne_of_releases hrun hexit⟩
    rcases hkept.mine i hl with hmine | hu | hs
    · exact absurd hmine hne
    · exact Or.inl ⟨(over_run hrun hexit).1.undoes hu.tried, fun _ => hu⟩
    · exact Or.inr hs
  refine ⟨hiff, fun hpid => (not_congr ?_).trans hiff⟩
  rw [hkept.lock, Option.map_eq_some_iff, holder_eq_some]
  constructor
  · rintro ⟨file, hfile, heq⟩
    obtain ⟨j, rfl, hj⟩ := Option.map_eq_some_iff.mp heq
    by_contra hne
    exact hpid j (fun hji => hne (hji ▸ hfile)) hj
  · exact fun hi => ⟨some i, hi, rfl⟩

end Interleavings

/-- A live run releases the lock file. -/
theorem lock_released_iff_live : holder (labels false wholeFirst) ≠ some false ∧
    wholeFirst.2.2.lock ≠ some (some 1) := by
  have hrun : (manager Bool Unit Unit).run (twoRuns, twoRunsStart) (labels false wholeFirst) =
      some (Function.update twoRuns false (.exit 0), wholeFirst.2.2) :=
    (run_part _ _ _ _).trans rfl
  obtain ⟨-, hreleased, -⟩ := lock_released_iff rfl hrun
  have hlocked : Locked (labels false wholeFirst) false :=
    ⟨⟨⟨.main, .lock 1⟩, Created.ok⟩, List.mem_of_getElem? (i := 1) rfl, rfl⟩
  have hunlocked : Unlocked (labels false wholeFirst) false :=
    ⟨⟨⟨.undo, .act .rmLock⟩, true⟩, List.mem_of_getElem? (i := 34) rfl, rfl⟩
  obtain ⟨hholder, hlock⟩ := hreleased false 0 hlocked rfl
  have hgoing : ¬ Did Quits (labels false wholeFirst) false := by
    have hall : ∀ e ∈ wholeFirst.1, ¬ Quits e := by decide +kernel
    rintro ⟨e, he, hquits⟩
    obtain ⟨e', he', heq⟩ := List.mem_map.mp he
    exact hall e ((Prod.mk.inj (Sum.inl.inj heq)).2 ▸ he') hquits
  have hreleases : Releases { online := true } (labels false wholeFirst) false :=
    ⟨⟨hgoing, Or.inl rfl⟩, fun _ => hunlocked⟩
  refine ⟨hholder.mpr (Or.inl hreleases), (hlock fun j hj => ?_).mpr (Or.inl hreleases)⟩
  cases j with
  | false => exact absurd rfl hj
  | true => decide

/-! ### Two runs that are not live -/

/-- Two runs on one container that stop it and start its copy. -/
def stoppedRuns : Bool → Script Unit :=
  runs (fun second => if second then 2 else 1) (fun _ => {}) fun _ => { priv := "/vz/private" }

/-- Everything goes well, but that the lock may be taken. -/
def usualLock (c : Call) (w : World Unit Unit) : Option (c.cmd.Out Unit) :=
  match c with
  | ⟨_, .lock _⟩ => some (if w.lock.isNone then .ok else .failed)
  | ⟨_, c⟩ => some (c.usual w)

def stoppedFirst : List (vzctl Unit Unit).Event × Script Unit × World Unit Unit :=
  (vzctl Unit Unit).play usualLock (stoppedRuns false) twoRunsStart

def stoppedSecond : List (vzctl Unit Unit).Event × Script Unit × World Unit Unit :=
  (vzctl Unit Unit).play usualLock (stoppedRuns true) stoppedFirst.2.2

/-- **The lock file outlives its run.** The first run succeeds, and when it has exited the file
still has its process id. So the second run is refused, although there is no other one any more. -/
theorem lock_outlives :
    ∃ (es es' : List (vzctl Unit Unit).Event) (s t : (Bool → Script Unit) × World Unit Unit),
      (manager Bool Unit Unit).run (stoppedRuns, twoRunsStart)
        (es.map fun e => .inl (false, e)) = some s ∧
      s.1 false = .exit 0 ∧ s.2.lock = some (some 1) ∧
      (manager Bool Unit Unit).run s (es'.map fun e => .inl (true, e)) = some t ∧
      t.1 true = .exit migErrLocked := by
  have hfirst : (manager Bool Unit Unit).run (stoppedRuns, twoRunsStart)
      (stoppedFirst.1.map fun e => .inl (false, e)) =
      some (Function.update stoppedRuns false stoppedFirst.2.1, stoppedFirst.2.2) :=
    Shell.system_run_play write false stoppedRuns twoRunsStart
  have hsecond : (manager Bool Unit Unit).run
      (Function.update stoppedRuns false stoppedFirst.2.1, stoppedFirst.2.2)
      (stoppedSecond.1.map fun e => .inl (true, e)) =
      some (Function.update (Function.update stoppedRuns false stoppedFirst.2.1) true
        stoppedSecond.2.1, stoppedSecond.2.2) :=
    Shell.system_run_play write true _ _
  exact ⟨_, _, _, _, hfirst, rfl, rfl, hsecond, rfl⟩

end Parikshan.CloneManager
