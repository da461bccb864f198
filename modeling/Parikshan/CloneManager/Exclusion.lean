import Parikshan.CloneManager.Stages

/-!
# Several runs on one container

Runs of the script on the same container keep apart by a lock file, which `lock_ct` creates if there
is none and `undo_lock` removes. Between the two a run has the container, its dump file and its copy
for itself. But `undo_lock` is not always the last thing that a run does: with `--live` it comes
before the production container is resumed and the dump files are removed, and after a failed
`compact` or `snapshot` the run goes on with everything else. If another run gets past `lock_ct`
then, it is not alone.

## Main definitions

* `manager`: any number of runs on one container.
* `Exclusive`: while a run has the container for itself no other run touches it.
* `Handover`: a run gets past `lock_ct` only when those that have removed the lock file have exited.

## Main results

* `mutual_exclusion`: under this condition the runs exclude each other.
* `mutual_exclusion_fails`: without it a run removes the dump file of another.
-/

namespace Parikshan.CloneManager

variable {ι M B : Type}

/-! ### Runs that share a lock -/

variable (ι M B) in
/-- A command of one of the runs, or a write of the container. -/
abbrev Label : Type := (ι × (vzctl M B).Event) ⊕ Write M B

variable (ι M B) in
/-- Any number of runs on one container. -/
def manager [DecidableEq ι] : Machine ((ι → Script Unit) × World M B) (Label ι M B) :=
  (vzctl M B).system write

/-- The runs at the start, each with its process id, options and configuration. -/
def runs (pid : ι → ℕ) (o : ι → Options) (conf : ι → Conf) (i : ι) : Script Unit :=
  vzclone (pid i) (o i) (conf i)

/-- A command on the container, its dump file, its copy or one of the nodes: all commands but those
on the lock file and the check that precedes them. -/
def Cmd.Touches : Cmd → Prop
  | .lock _ | .testLock | .catLock | .act .rmLock | .query .vzconf => False
  | _ => True

/-- `lock_ct` succeeds. -/
def Cmd.Locks : (c : Cmd) → c.Reply → Prop
  | .lock _, (r : Bool) => r = true
  | _, _ => False

/-- `lock_ct` fails and leaves an empty lock file. -/
def Cmd.Empties : (c : Cmd) → c.Out B → Prop
  | .lock _, (o : Created) => o = .empty
  | _, _ => False

/-- `undo_lock` removes the lock file. -/
def Cmd.Unlocks : (c : Cmd) → c.Reply → Prop
  | .act .rmLock, (r : Bool) => r = true
  | _, _ => False

def Touches (e : (vzctl M B).Event) : Prop := e.1.cmd.Touches

def Locks (e : (vzctl M B).Event) : Prop := e.1.cmd.Locks (e.1.cmd.reply B e.2)

def Unlocks (e : (vzctl M B).Event) : Prop := e.1.cmd.Unlocks (e.1.cmd.reply B e.2)

/-- A command of the run has turned out in some way. -/
def Did (P : (vzctl M B).Event → Prop) (past : List (Label ι M B)) (i : ι) : Prop :=
  ∃ e, .inl (i, e) ∈ past ∧ P e

/-- The run has got past `lock_ct`. -/
def Locked (past : List (Label ι M B)) (i : ι) : Prop := ∃ e, .inl (i, e) ∈ past ∧ Locks e

/-- The run has removed the lock file. -/
def Unlocked (past : List (Label ι M B)) (i : ι) : Prop := ∃ e, .inl (i, e) ∈ past ∧ Unlocks e

/-- **Mutual exclusion.** Between the command by which a run gets past `lock_ct` and any later
command of it on the container, no other run gets past `lock_ct` or issues such a command. -/
def Exclusive (past : List (Label ι M B)) : Prop :=
  ∀ xs i e ys e' zs, past = xs ++ .inl (i, e) :: (ys ++ .inl (i, e') :: zs) → Locks e →
    Touches e' → ∀ j e'', .inl (j, e'') ∈ ys → j ≠ i → ¬ Locks e'' ∧ ¬ Touches e''

/-- **The condition.** When a run gets past `lock_ct`, every other run that has removed the lock
file has exited. -/
def Handover (s : ((ι → Script Unit) × World M B) × List (Label ι M B)) (a : Label ι M B) : Prop :=
  ∀ j e, a = .inl (j, e) → Locks e → ∀ i ≠ j, Unlocked s.2 i → ∃ n, s.1.1 i = .exit n

/-! ### The lock file -/

theorem Cmd.exec_of_locks {c : Cmd} {o : c.Out B} {w w' : World M B}
    (h : c.exec o w = some w') (hl : c.Locks (c.reply B o)) :
    w.lock = none ∧ ∃ pid, c = .lock pid ∧ w'.lock = some (some pid) := by
  cases c with
  | lock pid =>
    obtain rfl : o = .ok := of_decide_eq_true hl
    simp only [Cmd.exec] at h
    split_ifs at h with hn
    obtain rfl := Option.some.inj h
    exact ⟨hn, pid, rfl, rfl⟩
  | _ => exact hl.elim

theorem Cmd.exec_of_empties {c : Cmd} {o : c.Out B} {w w' : World M B}
    (h : c.exec o w = some w') (he : c.Empties o) : w.lock = none ∧ w'.lock = some none := by
  cases c with
  | lock pid =>
    obtain rfl : o = .empty := he
    simp only [Cmd.exec] at h
    split_ifs at h with hn
    obtain rfl := Option.some.inj h
    exact ⟨hn, rfl⟩
  | _ => exact he.elim

theorem Cmd.exec_lock_eq {c : Cmd} {o : c.Out B} {w w' : World M B}
    (h : c.exec o w = some w') (hl : ¬ c.Locks (c.reply B o)) (hu : ¬ c.Unlocks (c.reply B o))
    (he : ¬ c.Empties o) : w'.lock = w.lock := by
  cases c with
  | lock pid =>
    cases o with
    | ok => exact absurd rfl hl
    | failed => exact Option.some.inj h ▸ rfl
    | empty => exact absurd rfl he
  | act a =>
    obtain rfl := Option.some.inj h
    cases o with
    | false => rfl
    | true => cases a <;> first | rfl | exact absurd rfl hu
  | _ =>
    rcases Cmd.exec_cases h with rfl | ⟨a, ha, -⟩ | ⟨pid, owner, hp, -⟩ | ⟨tree, top, -, rfl⟩ |
      ⟨exclude, tree, -, rfl⟩ | ⟨feedback, freeze, top, tree, -, rfl⟩
    · rfl
    · cases ha
    · cases hp
    · rfl
    · rfl
    · rfl

/-- Only `undo_lock` removes the lock file. -/
theorem Cmd.exec_lock_ne_none {c : Cmd} {o : c.Out B} {w w' : World M B}
    (h : c.exec o w = some w') (hu : ¬ c.Unlocks (c.reply B o)) (hw : w.lock ≠ none) :
    w'.lock ≠ none := by
  by_cases hl : c.Locks (c.reply B o)
  · exact absurd (Cmd.exec_of_locks h hl).1 hw
  by_cases he : c.Empties o
  · exact absurd (Cmd.exec_of_empties h he).1 hw
  · rw [Cmd.exec_lock_eq h hl hu he]
    exact hw

theorem Cmd.not_locks {c : Cmd} (hc : ∀ pid, c ≠ .lock pid) (r : c.Reply) : ¬ c.Locks r := by
  cases c with
  | lock pid => exact absurd rfl (hc pid)
  | _ => exact id

/-! ### Phases of a run -/

/-- A run that is still waiting for the lock: it touches nothing and does not remove the lock file,
and once it has got past `lock_ct` it does not try so again. -/
def Waiting : Script Unit → Prop
  | .call c k => (¬ c.cmd.Touches ∧ ∀ r, ¬ c.cmd.Unlocks r) ∧
      (∀ r, c.cmd.Locks r → (k r).All Call.Inside (fun _ => True) fun _ => True) ∧
      ∀ r, ¬ c.cmd.Locks r → Waiting (k r)
  | _ => True

variable {v : Vars} {E : ℕ → Prop}

theorem ploopCopy_inside (freeze : Freeze) (top : String) :
    (ploopCopy freeze top).All Call.Inside (fun _ => True) E := by
  have hcopy (feedback : Bool) :
      (run (.ploopCopy feedback freeze top)).All Call.Inside (fun _ => True) E :=
    issue_all fun _ h => by cases h
  refine (inside_of_quiet (query_all .blockDev)).bind fun dev _ => ?_
  cases dev with
  | false => trivial
  | true =>
    refine (inside_of_quiet (query_all .topDelta)).bind fun delta _ => ?_
    cases delta with
    | false => trivial
    | true =>
      refine (ignore_all (act_inside _)).bind fun _ _ => ?_
      refine (issue_all fun _ h => by cases h).bind fun (err : ℕ) _ => ?_
      by_cases herr : err = 38
      · rw [if_pos herr]
        exact hcopy false
      · rw [if_neg herr]
        exact (inside_of_quiet (query_all .sshAlive)).bind fun alive _ => hcopy alive

/-- A stage of the script never takes the lock. -/
theorem orDo_inside {p : Script Bool} {q : Script Unit} {n : ℕ}
    (hp : p.All Call.Inside (fun _ => True) fun _ => True)
    {k : ℕ} (hq : q.All (Call.Below k) (fun _ => True) fun _ => True) :
    (p.orDo (giveUp q n)).All Call.Inside (fun _ => True) fun _ => True :=
  orDo_giveUp_all hp (inside_of_below hq) trivial

theorem suspendOrStop_inside (top : String) :
    (suspendOrStop v top).All Call.Inside (fun _ => True) fun _ => True := by
  unfold suspendOrStop suspendAndDump suspendCt stopCt
  split_ifs
  · refine (orDo_inside (ploopCopy_inside _ _) (restore_below v (by decide))).bind fun _ _ => ?_
    exact (orDo_inside (act_inside _) (undoSuspend_below v)).bind fun _ _ =>
      orDo_inside (act_inside _) (undoDump_below v)
  · refine (orDo_inside (act_inside _) (undoSync_below v)).bind fun _ _ => ?_
    exact (orDo_inside (act_inside _) (undoSuspend_below v)).bind fun _ _ =>
      orDo_inside (act_inside _) (undoDump_below v)
  · exact (orDo_inside (ploopCopy_inside _ _) (restore_below v (by decide))).bind fun _ _ =>
      orDo_inside (act_inside _) (restore_below v (by decide))
  · exact orDo_inside (act_inside _) (undoSync_below v)
  · exact when_all (orDo_inside (act_inside _) (undoSync_below v))

theorem restoreOrStart_inside :
    (restoreOrStart v).All Call.Inside (fun _ => True) fun _ => True := by
  have hstep (a : Action) (n : ℕ) : ((act a).orDo (giveUp (undoCopyQuota v) n)).All Call.Inside
      (fun _ => True) fun _ => True := orDo_inside (act_inside _) (undoCopyQuota_below v)
  unfold restoreOrStart
  split_ifs
  · refine (hstep _ _).bind fun _ _ => ?_
    refine (orDo_inside (act_inside _) (undoUndump_below v)).bind fun _ _ => ?_
    refine (inside_of_quiet (undoLock_all _)).bind fun _ _ => ?_
    exact (ignore_all (act_inside _)).bind fun _ _ => (ignore_all (act_inside _)).bind
      fun _ _ => ignore_all (act_inside _)
  · exact hstep _ _
  · exact hstep _ _
  · exact when_all (hstep _ _)

theorem migrate_inside (pid : ℕ) (o : Options) (conf : Conf) :
    (migrate pid o conf).All Call.Inside (fun _ => True) fun _ => True := by
  have hquiet {α : Type} {p : Script α} {Q : α → Prop} {E : ℕ → Prop}
      (hp : p.All Call.Quiet Q E) : p.All Call.Inside (fun _ => True) fun _ => True :=
    (inside_of_quiet hp).mono (fun _ h => h) (fun _ h => h) fun _ _ => trivial
  refine (issue_all fun _ h => by cases h).bind fun status _ => ?_
  refine (hquiet (checkNodes_all pid o status)).bind fun _ _ => ?_
  refine (hquiet (readConf_all pid)).bind fun remote _ => ?_
  refine (issue_all fun _ h => by cases h).bind fun ploop _ => ?_
  refine (hquiet (checkConf_all _)).bind fun _ _ => ?_
  refine Prog.All.bind (Q := fun _ => True) ?_ fun _ _ => ?_
  · exact (orDo_inside (act_inside _) (undoLock_below _)).bind fun _ _ =>
      ignore_all (act_inside _)
  refine (hquiet (prepare_all _)).bind fun _ _ => (hquiet (compactSnapshot_all _)).bind
    fun _ _ => ?_
  refine (hquiet (getTopDelta_all _)).bind fun top _ => (hquiet (syncPrivate_all _ top)).bind
    fun _ _ => ?_
  refine (suspendOrStop_inside top).bind fun _ _ => ?_
  refine Prog.All.bind (Q := fun _ => True) ?_ fun _ _ => Prog.All.bind (Q := fun _ => True) ?_
    fun _ _ => restoreOrStart_inside.bind fun _ _ => trivial
  · refine when_all ((issue_all fun _ h => by cases h).bind fun ret _ => when_all ?_)
    exact giveUp_all (inside_of_below (undoSourceStage_below _)) trivial
  · refine when_all ((orDo_inside (act_inside _) (undoQuotaDump_below _)).bind fun _ _ => ?_)
    exact (orDo_inside (act_inside _) (undoQuotaDump_below _)).bind fun _ _ =>
      orDo_inside (act_inside _) (undoCopyQuota_below _)

/-- The script at its start. -/
theorem waiting_vzclone (pid : ℕ) (o : Options) (conf : Conf) : Waiting (vzclone pid o conf) := by
  refine ⟨⟨id, fun _ => id⟩, fun _ h => h.elim, fun (r : Bool) _ => ?_⟩
  cases r with
  | false => trivial
  | true =>
    refine ⟨⟨id, fun _ => id⟩, fun r hr => ?_, fun (r : Bool) hr => ?_⟩
    · obtain rfl : r = true := hr
      exact migrate_inside pid o conf
    · cases r with
      | true => exact absurd rfl hr
      | false =>
        refine ⟨⟨id, fun _ => id⟩, fun _ h => h.elim, fun (present : Bool) _ => ?_⟩
        cases present with
        | false => trivial
        | true => exact ⟨⟨id, fun _ => id⟩, fun _ h => h.elim, fun _ _ => trivial⟩

/-! ### The invariant -/

/-- The run has got past `lock_ct` and has not exited. -/
def Active (p : Script Unit) (past : List (Label ι M B)) (i : ι) : Prop :=
  Locked past i ∧ ∀ n, p ≠ .exit n

/-- What holds of the runs, the world and the past: a run waits until it gets past `lock_ct` and
does not try again; the lock file of a run that is active is there until it removes it; only one run
is active; since it has got past `lock_ct` no other run has done anything that matters. -/
structure Exclusion (s : (ι → Script Unit) × World M B) (past : List (Label ι M B)) : Prop where
  waiting : ∀ i, ¬ Locked past i → Waiting (s.1 i)
  inside : ∀ i, Locked past i → (s.1 i).All Call.Inside (fun _ => True) fun _ => True
  lock : ∀ i, Active (s.1 i) past i → ¬ Unlocked past i → s.2.lock ≠ none
  alone : ∀ i j, Active (s.1 i) past i → Active (s.1 j) past j → i = j
  apart : ∀ i, Active (s.1 i) past i → ∀ xs e ys, past = xs ++ .inl (i, e) :: ys → Locks e →
    ∀ j e', .inl (j, e') ∈ ys → j ≠ i → ¬ Locks e' ∧ ¬ Touches e'
  exclusive : Exclusive past

section Past

variable {α : Type}

theorem eq_append_cons_of_concat {past xs ys : List α} {a b : α}
    (h : past ++ [a] = xs ++ b :: ys) :
    (past = xs ∧ a = b ∧ ys = []) ∨ ∃ zs, past = xs ++ b :: zs ∧ ys = zs ++ [a] := by
  rcases List.eq_nil_or_concat ys with rfl | ⟨zs, c, rfl⟩
  · obtain ⟨hxs, hb⟩ := List.append_inj' h rfl
    exact Or.inl ⟨hxs, (List.cons.inj hb).1, rfl⟩
  · rw [List.concat_eq_append, ← List.cons_append, ← List.append_assoc] at h
    obtain ⟨hpast, ha⟩ := List.append_inj' h rfl
    obtain rfl := (List.cons.inj ha).1
    exact Or.inr ⟨zs, hpast, List.concat_eq_append ..⟩

variable {past : List (Label ι M B)} {a : Label ι M B} {i : ι}

theorem did_concat {P : (vzctl M B).Event → Prop} :
    Did P (past ++ [a]) i ↔ Did P past i ∨ ∃ e, a = .inl (i, e) ∧ P e := by
  simp only [Did, List.mem_append, List.mem_singleton]
  constructor
  · rintro ⟨e, h | h, he⟩
    · exact Or.inl ⟨e, h, he⟩
    · exact Or.inr ⟨e, h.symm, he⟩
  · rintro (⟨e, h, he⟩ | ⟨e, h, he⟩)
    · exact ⟨e, Or.inl h, he⟩
    · exact ⟨e, Or.inr h.symm, he⟩

theorem Did.concat {P : (vzctl M B).Event → Prop} (h : Did P past i) : Did P (past ++ [a]) i :=
  did_concat.mpr (Or.inl h)

theorem locked_concat :
    Locked (past ++ [a]) i ↔ Locked past i ∨ ∃ e, a = .inl (i, e) ∧ Locks e :=
  did_concat

theorem Unlocked.concat (h : Unlocked past i) : Unlocked (past ++ [a]) i := Did.concat h

/-- One more label, which is not a command on the container, or one of a run that others have kept
apart from. -/
theorem Exclusive.concat (h : Exclusive past)
    (ha : ∀ i e', a = .inl (i, e') → Touches e' → ∀ xs e ys, past = xs ++ .inl (i, e) :: ys →
      Locks e → ∀ j e'', .inl (j, e'') ∈ ys → j ≠ i → ¬ Locks e'' ∧ ¬ Touches e'') :
    Exclusive (past ++ [a]) := by
  intro xs i e ys e' zs hsplit he he'
  rcases eq_append_cons_of_concat hsplit with ⟨-, -, hnil⟩ | ⟨us, hus, hys⟩
  · simp at hnil
  rcases eq_append_cons_of_concat hys.symm with ⟨rfl, rfl, -⟩ | ⟨vs, rfl, -⟩
  · exact ha i e' rfl he' xs e us hus he
  · exact h xs i e ys e' vs hus he he'

end Past

/-- At the start no run has done anything. -/
theorem exclusion_start (pid : ι → ℕ) (o : ι → Options) (conf : ι → Conf) (w : World M B) :
    Exclusion (runs pid o conf, w) [] where
  waiting i _ := waiting_vzclone (pid i) (o i) (conf i)
  inside i h := by simp [Locked] at h
  lock i h := by simp [Active, Locked] at h
  alone i j h := by simp [Active, Locked] at h
  apart i h := by simp [Active, Locked] at h
  exclusive xs i e ys e' zs h := by simp at h

section Step

variable {s t : (ι → Script Unit) × World M B} {past : List (Label ι M B)}

/-- A write of the container. -/
theorem Exclusion.write (h : Exclusion s past) {n : Write M B} (hp : t.1 = s.1)
    (hw : t.2.lock = s.2.lock) : Exclusion t (past ++ [.inr n]) := by
  have hlocked {i : ι} : Locked (past ++ [.inr n]) i ↔ Locked past i := by
    simp [locked_concat]
  have hactive {i : ι} : Active (t.1 i) (past ++ [.inr n]) i ↔ Active (s.1 i) past i := by
    rw [Active, Active, hlocked, hp]
  refine ⟨fun i hi => ?_, fun i hi => ?_, fun i hi hu => ?_, fun i j hi hj => ?_,
    fun i hi => ?_, ?_⟩
  · exact hp ▸ h.waiting i fun hl => hi (hlocked.mpr hl)
  · exact hp ▸ h.inside i (hlocked.mp hi)
  · exact hw ▸ h.lock i (hactive.mp hi) fun hl => hu hl.concat
  · exact h.alone i j (hactive.mp hi) (hactive.mp hj)
  · intro xs e ys hsplit he j e' hmem hne
    rcases eq_append_cons_of_concat hsplit with ⟨-, ha, -⟩ | ⟨zs, hzs, rfl⟩
    · cases ha
    · have hmem' : .inl (j, e') ∈ zs := by simpa using hmem
      exact h.apart i (hactive.mp hi) xs e zs hzs he j e' hmem' hne
  · exact h.exclusive.concat fun i e' ha => by cases ha

variable {j : ι} {c : Call} {k : c.cmd.Reply → Script Unit} {o : c.cmd.Out B}

/-- A run whose next command is still to come is the one that is active, if it holds the lock. -/
theorem Exclusion.eq_of_active (h : Exclusion s past) (hj : s.1 j = .call c k)
    (hl : Locked past j) {i : ι} (hi : Active (s.1 i) past i) : i = j :=
  h.alone i j hi ⟨hl, fun n hn => by rw [hj] at hn; cases hn⟩

variable [DecidableEq ι]

/-- A run that has got past `lock_ct` issues a command. -/
theorem Exclusion.work (h : Exclusion s past) (hj : s.1 j = .call c k) (hl : Locked past j)
    (ht : t.1 = Function.update s.1 j (k (c.cmd.reply B o)))
    (hw : c.cmd.exec o s.2 = some t.2) : Exclusion t (past ++ [.inl (j, ⟨c, o⟩)]) := by
  have hin := h.inside j hl
  rw [hj] at hin
  have hnot : ¬ Locks (B := B) (M := M) ⟨c, o⟩ := Cmd.not_locks hin.1 _
  have hlocked {i : ι} : Locked (past ++ [.inl (j, ⟨c, o⟩)]) i ↔ Locked past i := by
    refine locked_concat.trans (or_iff_left ?_)
    rintro ⟨e, he, hlocks⟩
    obtain ⟨rfl, rfl⟩ := Prod.mk.inj (Sum.inl.inj he)
    exact hnot hlocks
  have hother {i : ι} (hi : i ≠ j) : t.1 i = s.1 i := by rw [ht, Function.update_of_ne hi]
  have hj' : t.1 j = k (c.cmd.reply B o) := by rw [ht, Function.update_self]
  have hactive {i : ι} (hi : Active (t.1 i) (past ++ [.inl (j, ⟨c, o⟩)]) i) : i = j := by
    by_contra hne
    rw [Active, hlocked, hother hne] at hi
    exact hne (h.eq_of_active hj hl hi)
  have hself : Active (s.1 j) past j := ⟨hl, fun n hn => by rw [hj] at hn; cases hn⟩
  refine ⟨fun i hi => ?_, fun i hi => ?_, fun i hi hu => ?_, fun i i' hi hi' => ?_,
    fun i hi => ?_, ?_⟩
  · have hne : i ≠ j := fun hij => hi (hlocked.mpr (hij ▸ hl))
    exact hother hne ▸ h.waiting i fun hl => hi (hlocked.mpr hl)
  · by_cases hij : i = j
    · subst hij
      exact hj' ▸ hin.2 _
    · exact hother hij ▸ h.inside i (hlocked.mp hi)
  · obtain rfl := hactive hi
    have hunl : ¬ c.cmd.Unlocks (c.cmd.reply B o) := fun hc =>
      hu ⟨⟨c, o⟩, List.mem_append_right _ (List.mem_singleton_self _), hc⟩
    exact Cmd.exec_lock_ne_none hw hunl (h.lock i hself fun hl => hu hl.concat)
  · exact (hactive hi).trans (hactive hi').symm
  · obtain rfl := hactive hi
    intro xs e ys hsplit he i' e' hmem hne
    rcases eq_append_cons_of_concat hsplit with ⟨-, -, rfl⟩ | ⟨zs, hzs, rfl⟩
    · cases hmem
    · rcases List.mem_append.mp hmem with hmem | hmem
      · exact h.apart i hself xs e zs hzs he i' e' hmem hne
      · exact absurd (Prod.mk.inj (Sum.inl.inj (List.mem_singleton.mp hmem))).1 hne
  · refine h.exclusive.concat fun i e' ha _ xs e ys hys he => ?_
    obtain ⟨rfl, -⟩ := Prod.mk.inj (Sum.inl.inj ha)
    exact h.apart j hself xs e ys hys he

/-- A run gets past `lock_ct`. -/
theorem Exclusion.enter (h : Exclusion s past) (hj : s.1 j = .call c k) (hl : ¬ Locked past j)
    (ht : t.1 = Function.update s.1 j (k (c.cmd.reply B o)))
    (hw : c.cmd.exec o s.2 = some t.2) (hlocks : c.cmd.Locks (c.cmd.reply B o))
    (hG : Handover (s, past) (.inl (j, ⟨c, o⟩))) :
    Exclusion t (past ++ [.inl (j, ⟨c, o⟩)]) := by
  obtain ⟨hnone, q, -, hlock⟩ := Cmd.exec_of_locks hw hlocks
  have hsome : t.2.lock ≠ none := by simp [hlock]
  have hwait := h.waiting j hl
  rw [hj] at hwait
  obtain ⟨⟨htouch, -⟩, hin, -⟩ := hwait
  -- whoever was past `lock_ct` before has exited
  have hexited {i : ι} (hne : i ≠ j) (hi : Locked past i) : ∃ n, s.1 i = .exit n := by
    by_contra hcon
    have hactive : Active (s.1 i) past i := ⟨hi, fun n hn => hcon ⟨n, hn⟩⟩
    by_cases hu : Unlocked past i
    · exact hcon (hG j ⟨c, o⟩ rfl hlocks i hne hu)
    · exact h.lock i hactive hu hnone
  have hlocked {i : ι} (hne : i ≠ j) : Locked (past ++ [.inl (j, ⟨c, o⟩)]) i ↔ Locked past i := by
    refine locked_concat.trans (or_iff_left ?_)
    rintro ⟨e, he, -⟩
    exact hne (Prod.mk.inj (Sum.inl.inj he)).1.symm
  have hother {i : ι} (hi : i ≠ j) : t.1 i = s.1 i := by rw [ht, Function.update_of_ne hi]
  have hactive {i : ι} (hi : Active (t.1 i) (past ++ [.inl (j, ⟨c, o⟩)]) i) : i = j := by
    by_contra hne
    obtain ⟨n, hn⟩ := hexited hne ((hlocked hne).mp hi.1)
    exact hi.2 n ((hother hne).trans hn)
  refine ⟨fun i hi => ?_, fun i hi => ?_, fun i _ _ => hsome, fun i i' hi hi' => ?_,
    fun i hi => ?_, ?_⟩
  · have hne : i ≠ j := fun hij =>
      hi (locked_concat.mpr (Or.inr ⟨⟨c, o⟩, hij ▸ rfl, hlocks⟩))
    exact hother hne ▸ h.waiting i fun hl => hi ((hlocked hne).mpr hl)
  · by_cases hij : i = j
    · subst hij
      rw [ht, Function.update_self]
      exact hin _ hlocks
    · exact hother hij ▸ h.inside i ((hlocked hij).mp hi)
  · exact (hactive hi).trans (hactive hi').symm
  · obtain rfl := hactive hi
    intro xs e ys hsplit he i' e' hmem _
    rcases eq_append_cons_of_concat hsplit with ⟨-, -, rfl⟩ | ⟨zs, hzs, -⟩
    · cases hmem
    · exact absurd ⟨e, by simp [hzs], he⟩ hl
  · refine h.exclusive.concat fun i e' ha he' => ?_
    obtain ⟨-, rfl⟩ := Prod.mk.inj (Sum.inl.inj ha)
    exact absurd he' htouch

/-- A run that is waiting does not get past `lock_ct`. -/
theorem Exclusion.wait (h : Exclusion s past) (hj : s.1 j = .call c k) (hl : ¬ Locked past j)
    (ht : t.1 = Function.update s.1 j (k (c.cmd.reply B o)))
    (hw : c.cmd.exec o s.2 = some t.2) (hlocks : ¬ c.cmd.Locks (c.cmd.reply B o)) :
    Exclusion t (past ++ [.inl (j, ⟨c, o⟩)]) := by
  have hwait := h.waiting j hl
  rw [hj] at hwait
  obtain ⟨⟨htouch, hunl⟩, -, hrest⟩ := hwait
  have hlocked {i : ι} : Locked (past ++ [.inl (j, ⟨c, o⟩)]) i ↔ Locked past i := by
    refine locked_concat.trans (or_iff_left ?_)
    rintro ⟨e, he, hlk⟩
    obtain ⟨-, rfl⟩ := Prod.mk.inj (Sum.inl.inj he)
    exact hlocks hlk
  have hother {i : ι} (hi : i ≠ j) : t.1 i = s.1 i := by rw [ht, Function.update_of_ne hi]
  have hactive {i : ι} (hi : Active (t.1 i) (past ++ [.inl (j, ⟨c, o⟩)]) i) :
      i ≠ j ∧ Active (s.1 i) past i := by
    have hne : i ≠ j := fun hij => hl (hij ▸ hlocked.mp hi.1)
    exact ⟨hne, hlocked.mp hi.1, hother hne ▸ hi.2⟩
  refine ⟨fun i hi => ?_, fun i hi => ?_, fun i hi hu => ?_, fun i i' hi hi' => ?_,
    fun i hi => ?_, ?_⟩
  · by_cases hij : i = j
    · subst hij
      rw [ht, Function.update_self]
      exact hrest _ hlocks
    · exact hother hij ▸ h.waiting i fun hl => hi (hlocked.mpr hl)
  · have hne : i ≠ j := fun hij => hl (hij ▸ hlocked.mp hi)
    exact hother hne ▸ h.inside i (hlocked.mp hi)
  · exact Cmd.exec_lock_ne_none hw (hunl _) (h.lock i (hactive hi).2 fun hl => hu hl.concat)
  · exact h.alone i i' (hactive hi).2 (hactive hi').2
  · intro xs e ys hsplit he i' e' hmem hne
    rcases eq_append_cons_of_concat hsplit with ⟨-, -, rfl⟩ | ⟨zs, hzs, rfl⟩
    · cases hmem
    · rcases List.mem_append.mp hmem with hmem | hmem
      · exact h.apart i (hactive hi).2 xs e zs hzs he i' e' hmem hne
      · obtain ⟨-, rfl⟩ := Prod.mk.inj (Sum.inl.inj (List.mem_singleton.mp hmem))
        exact ⟨hlocks, htouch⟩
  · refine h.exclusive.concat fun i e' ha he' => ?_
    obtain ⟨-, rfl⟩ := Prod.mk.inj (Sum.inl.inj ha)
    exact absurd he' htouch

/-- **Every step** that meets the condition keeps the invariant. -/
theorem Exclusion.step (h : Exclusion s past) {a : Label ι M B} (hG : Handover (s, past) a)
    (hstep : (manager ι M B).step s a = some t) : Exclusion t (past ++ [a]) := by
  rcases Shell.system_step_cases hstep with ⟨j, e, p, rfl, he, ht⟩ | ⟨n, rfl, hn, hp⟩
  · obtain ⟨c, k, o, hj, rfl, hw, rfl⟩ := Shell.step_cases he
    by_cases hl : Locked past j
    · exact h.work hj hl ht hw
    · by_cases hlocks : c.cmd.Locks (c.cmd.reply B o)
      · exact h.enter hj hl ht hw hlocks hG
      · exact h.wait hj hl ht hw hlocks
  · refine h.write hp ?_
    obtain ⟨-, ⟨m, hw⟩ | ⟨path, b, -, hw⟩⟩ := write_cases hn <;> rw [hw]

end Step

/-! ### Runs -/

variable [DecidableEq ι]

/-- **Mutual exclusion.** In every interleaving of any number of runs, with any options and whatever
the outcomes of their commands: if a run gets past `lock_ct` only when every other run that has
removed the lock file has exited, then from when a run gets past `lock_ct` until its last command on
the container, its dump file or its copy, no other run gets past `lock_ct` or issues such a
command. -/
theorem mutual_exclusion {pid : ι → ℕ} {o : ι → Options} {conf : ι → Conf} {w : World M B}
    {as : List (Label ι M B)} {s : (ι → Script Unit) × World M B}
    (hG : (manager ι M B).recorded.Along Handover ((runs pid o conf, w), []) as)
    (hrun : (manager ι M B).run (runs pid o conf, w) as = some s) : Exclusive as := by
  have hinv : Exclusion s ([] ++ as) := by
    refine hG.invariant (I := fun x => Exclusion x.1 x.2) ?_ (exclusion_start pid o conf w)
      (Machine.run_recorded hrun)
    intro x a y hx ha hstep
    obtain ⟨t, ht, rfl⟩ := Option.map_eq_some_iff.mp hstep
    exact hx.step ha ht
  exact hinv.exclusive

/-- A run that is alone for a while meets the condition if those that have removed the lock file
have exited before. -/
theorem along_handover_alone {j : ι} {es : List (vzctl M B).Event}
    {s : (ι → Script Unit) × World M B} {past : List (Label ι M B)}
    (h : ∀ i ≠ j, Unlocked past i → ∃ n, s.1 i = .exit n) :
    (manager ι M B).recorded.Along Handover (s, past) (es.map fun e => .inl (j, e)) := by
  induction es generalizing s past with
  | nil => trivial
  | cons e es ih =>
    intro x hx
    obtain ⟨t, ht, rfl⟩ := Option.map_eq_some_iff.mp hx
    refine ⟨fun j' e' he _ i hi hu => ?_, ih fun i hi hu => ?_⟩
    · obtain ⟨rfl, -⟩ := Prod.mk.inj (Sum.inl.inj he)
      exact h i hi hu
    · obtain ⟨y, hy, rfl⟩ := Option.map_eq_some_iff.mp ht
      have hu' : Unlocked past i := by
        obtain ⟨e', he', hunl⟩ := hu
        rcases List.mem_append.mp he' with he' | he'
        · exact ⟨e', he', hunl⟩
        · exact absurd (Prod.mk.inj (Sum.inl.inj (List.mem_singleton.mp he'))).1 hi
      obtain ⟨n, hn⟩ := h i hi hu'
      exact ⟨n, (Function.update_of_ne hi _ _).trans hn⟩

/-! ### Two runs -/

/-- Two live runs on one container. The second one goes to another node, and finds no copy there. -/
def twoRuns : Bool → Script Unit :=
  runs (fun second => if second then 2 else 1) (fun _ => { online := true })
    fun _ => { priv := "/vz/private" }

/-- The container before them. -/
def twoRunsStart : World Unit Unit := .start .running false () fun _ => some ()

/-- Everything goes well, until a run comes to some command. -/
def usualUntil (a : Action) (c : Call) (w : World Unit Unit) : Option (c.cmd.Out Unit) :=
  if c.cmd = .act a then none else some (c.cmd.usual w)

/-- A part of one of the runs. -/
def part (a : Action) (p : Script Unit) (w : World Unit Unit) :
    List (vzctl Unit Unit).Event × Script Unit × World Unit Unit :=
  (vzctl Unit Unit).play (usualUntil a) p w

/-- The labels of a part. -/
def labels (i : Bool) (x : List (vzctl Unit Unit).Event × Script Unit × World Unit Unit) :
    List (Label Bool Unit Unit) :=
  x.1.map fun e => .inl (i, e)

theorem run_part (a : Action) (i : Bool) (p : Bool → Script Unit) (w : World Unit Unit) :
    (manager Bool Unit Unit).run (p, w) (labels i (part a (p i) w)) =
      some (Function.update p i (part a (p i) w).2.1, (part a (p i) w).2.2) :=
  Shell.system_run_play write i p w

/-- The first run, which exits before the second one begins. -/
def wholeFirst : List (vzctl Unit Unit).Event × Script Unit × World Unit Unit :=
  part .dstKill (twoRuns false) twoRunsStart

def wholeSecond : List (vzctl Unit Unit).Event × Script Unit × World Unit Unit :=
  part .dstKill (twoRuns true) wholeFirst.2.2

theorem mutual_exclusion_twoRuns :
    Exclusive (labels false wholeFirst ++ labels true wholeSecond) := by
  have hfirst : (manager Bool Unit Unit).run (twoRuns, twoRunsStart) (labels false wholeFirst) =
      some (Function.update twoRuns false (.exit 0), wholeFirst.2.2) :=
    (run_part _ _ _ _).trans rfl
  have hsecond : (manager Bool Unit Unit).run
      (Function.update twoRuns false (.exit 0), wholeFirst.2.2) (labels true wholeSecond) =
      some (Function.update (Function.update twoRuns false (.exit 0)) true wholeSecond.2.1,
        wholeSecond.2.2) :=
    run_part _ true _ _
  refine mutual_exclusion ?_ (Machine.run_append_eq_some _ |>.mpr ⟨_, hfirst, hsecond⟩)
  refine Machine.along_append (along_handover_alone fun i _ hu => ?_) fun t ht => ?_
  · simp [Unlocked] at hu
  · obtain rfl := Option.some.inj (ht.symm.trans (Machine.run_recorded hfirst))
    refine along_handover_alone fun i hi _ => ⟨0, ?_⟩
    cases i with
    | false => rfl
    | true => exact absurd rfl hi

/-- The first run, until it removes its dump file. -/
def beforeCleanUp : List (vzctl Unit Unit).Event × Script Unit × World Unit Unit :=
  part .rmDump (twoRuns false) twoRunsStart

/-- The second run from there on, until it has dumped the container. -/
def untilDumped : List (vzctl Unit Unit).Event × Script Unit × World Unit Unit :=
  part .scpDump (twoRuns true) beforeCleanUp.2.2

/-- The rest of the first run. -/
def cleanUp : List (vzctl Unit Unit).Event × Script Unit × World Unit Unit :=
  part .dstKill beforeCleanUp.2.1 untilDumped.2.2

/-- The dump file of the second run is gone. -/
example : untilDumped.2.2.src.dump = some () ∧ cleanUp.2.2.src.dump = none := ⟨rfl, rfl⟩

/-- **A run removes the dump file of another.** The first run has removed the lock file but not yet
its dump file, whose name depends on the container only, when the second run gets past `lock_ct`
and dumps the container. -/
theorem mutual_exclusion_fails :
    ¬ ∀ (pid : Bool → ℕ) (o : Bool → Options) (conf : Bool → Conf) (w : World Unit Unit)
      (as : List (Label Bool Unit Unit)) (s : (Bool → Script Unit) × World Unit Unit),
      (manager Bool Unit Unit).run (runs pid o conf, w) as = some s → Exclusive as := by
  intro h
  have hfirst : (manager Bool Unit Unit).run (twoRuns, twoRunsStart) (labels false beforeCleanUp) =
      some (Function.update twoRuns false beforeCleanUp.2.1, beforeCleanUp.2.2) :=
    run_part _ _ _ _
  have hsecond : (manager Bool Unit Unit).run
      (Function.update twoRuns false beforeCleanUp.2.1, beforeCleanUp.2.2)
      (labels true untilDumped) =
      some (Function.update (Function.update twoRuns false beforeCleanUp.2.1) true untilDumped.2.1,
        untilDumped.2.2) :=
    run_part _ true _ _
  have hthird := run_part .dstKill false
    (Function.update (Function.update twoRuns false beforeCleanUp.2.1) true untilDumped.2.1)
    untilDumped.2.2
  have hrun := (Machine.run_append_eq_some _).mpr ⟨_, hfirst,
    (Machine.run_append_eq_some _).mpr ⟨_, hsecond, hthird⟩⟩
  have hexclusive : Exclusive (labels false beforeCleanUp ++ (labels true untilDumped ++
    labels false cleanUp)) := h _ _ _ _ _ _ hrun
  -- the lock of the first run, the lock of the second and the removal of the dump
  have hlock₁ : (.inl (false, ⟨⟨.main, .lock 1⟩, Created.ok⟩) : Label Bool Unit Unit) ∈
      labels false beforeCleanUp := List.mem_of_getElem? (i := 1) rfl
  have hlock₂ : (.inl (true, ⟨⟨.main, .lock 2⟩, Created.ok⟩) : Label Bool Unit Unit) ∈
      labels true untilDumped := List.mem_of_getElem? (i := 1) rfl
  have hrm : (.inl (false, ⟨⟨.main, .act .rmDump⟩, true⟩) : Label Bool Unit Unit) ∈
      labels false cleanUp := List.mem_of_getElem? (i := 0) rfl
  obtain ⟨xs, ys, hxs⟩ := List.append_of_mem hlock₁
  obtain ⟨us, vs, hus⟩ := List.append_of_mem hrm
  refine (hexclusive xs false ⟨⟨.main, .lock 1⟩, Created.ok⟩ (ys ++ labels true untilDumped ++ us)
    ⟨⟨.main, .act .rmDump⟩, true⟩ vs ?_ rfl trivial true ⟨⟨.main, .lock 2⟩, Created.ok⟩ ?_
    (by decide)).1 rfl
  · rw [hxs, hus]
    simp
  · exact List.mem_append_left _ (List.mem_append_right _ hlock₂)

end Parikshan.CloneManager
