import Parikshan.CloneManager.Script
import Parikshan.Program.Logic

/-!
# What the stages of the script leave alone

Most commands of the script neither start, stop or suspend a container nor write the configuration
of the copy, and most stages issue no other commands. This file tells once which commands and which
stages these are, what a command can do to the worlds, and what the container can do to them.

## Main definitions

* `Action.onRun`: what an action does to the state of the source container.
* `Told`: what the script is told of this state.
* `parked`: the state of the source container while it is copied for the last time.
* `Action.Quiet`, `Cmd.Quiet`: the commands that leave both containers as they are.
* `Cmd.Looks`: those that change nothing but the lock file.
* `Call.Below`: those of the chain of `undo` functions up to some link.

## Main results

* `Cmd.exec_cases`, `write_cases`: inversion.
* `undoConf_below`, …, `undoUndump_below`: the chain of `undo` functions, link by link.
* `checkNodes_all`, `checkConf_all`, `prepare_all`, `compactSnapshot_all`, `getTopDelta_all`,
  `syncPrivate_all`: the stages that issue quiet commands only.
-/

namespace Parikshan.CloneManager

variable {M B : Type}

/-! ### Inversion -/

/-- **What a command can do.** -/
theorem Cmd.exec_cases {c : Cmd} {o : c.Out B} {w w' : World M B} (h : c.exec o w = some w') :
    w' = w ∨ (∃ a, c = .act a ∧ w' = a.effect w) ∨
      (∃ pid owner, c = .lock pid ∧ w' = { w with lock := some owner }) ∨
      (∃ tree top, (c = .compact ∨ c = .snapshot) ∧
        w' = { w with src := { w.src with tree := tree, top := top } }) ∨
      (∃ exclude tree, (c = .rsync1 exclude ∨ c = .rsync2) ∧ w' = w.sync exclude tree) ∨
      ∃ feedback freeze top tree, c = .ploopCopy feedback freeze top ∧
        w' = { w with
          src := w.src.setRun freeze.run
          dst := { w.dst with tree := tree } } := by
  cases c with
  | act a =>
    simp only [Cmd.exec, Option.some.injEq] at h
    split_ifs at h
    · exact Or.inr (Or.inl ⟨a, rfl, h.symm⟩)
    · exact Or.inl h.symm
  | lock pid =>
    cases o with
    | failed => exact Or.inl (Option.some.inj h).symm
    | ok =>
      simp only [Cmd.exec] at h
      split_ifs at h
      exact Or.inr (Or.inr (Or.inl ⟨pid, some pid, rfl, (Option.some.inj h).symm⟩))
    | empty =>
      simp only [Cmd.exec] at h
      split_ifs at h
      exact Or.inr (Or.inr (Or.inl ⟨pid, none, rfl, (Option.some.inj h).symm⟩))
  | compact =>
    obtain rfl := Option.some.inj h
    cases o with
    | none => exact Or.inl rfl
    | some tree =>
      exact Or.inr (Or.inr (Or.inr (Or.inl ⟨tree, w.src.top, Or.inl rfl, rfl⟩)))
  | snapshot =>
    obtain rfl := Option.some.inj h
    cases o with
    | none => exact Or.inl rfl
    | some x => exact Or.inr (Or.inr (Or.inr (Or.inl ⟨x.1, x.2, Or.inr rfl, rfl⟩)))
  | rsync1 exclude =>
    obtain rfl := Option.some.inj h
    by_cases hc : o.1 = 0 ∨ o.1 = 24
    · exact Or.inr (Or.inr (Or.inr (Or.inr (Or.inl ⟨exclude, o.2, Or.inl rfl, if_pos hc⟩))))
    · exact Or.inl (if_neg hc)
  | rsync2 =>
    obtain rfl := Option.some.inj h
    by_cases hc : o.1 = 0 ∨ o.1 = 24
    · exact Or.inr (Or.inr (Or.inr (Or.inr (Or.inl ⟨none, o.2, Or.inr rfl, if_pos hc⟩))))
    · exact Or.inl (if_neg hc)
  | ploopCopy feedback freeze top =>
    cases o with
    | early => exact Or.inl (Option.some.inj h).symm
    | late =>
      exact Or.inr (Or.inr (Or.inr (Or.inr (Or.inr
        ⟨feedback, freeze, top, w.dst.tree, rfl, (Option.some.inj h).symm⟩))))
    | ok =>
      exact Or.inr (Or.inr (Or.inr (Or.inr (Or.inr
        ⟨feedback, freeze, top, _, rfl, (Option.some.inj h).symm⟩))))
  | query _ | source _ | applyConfig | ploopFeedback => exact Or.inl (Option.some.inj h).symm
  | testLock | catLock | testDdxml | status | remoteConf | remoteLink | ploopInfo =>
    simp only [Cmd.exec] at h
    split_ifs at h
    exact Or.inl (Option.some.inj h).symm

/-- **What the container can do.** -/
theorem write_cases {x : Write M B} {w w' : World M B} (h : write x w = some w') :
    w.src.run = .running ∧
      ((∃ m, w' = { w with src := { w.src with mem := m } }) ∨
        ∃ path b, (w.src.ploop = true → path = w.src.top) ∧
          w' = { w with src := { w.src with tree := Function.update w.src.tree path b } }) := by
  cases x with
  | mem m =>
    simp only [write] at h
    split_ifs at h with hr
    exact ⟨hr, Or.inl ⟨m, (Option.some.inj h).symm⟩⟩
  | disk path b =>
    simp only [write] at h
    split_ifs at h with hr
    exact ⟨hr.1, Or.inr ⟨path, b, hr.2, (Option.some.inj h).symm⟩⟩

/-! ### The state of the source container -/

/-- The effect of an action on the source container. -/
def Action.onRun : Action → Run → Run
  | .suspend => .suspend
  | .stop => .stop
  | .umount => .umount
  | .start => .start
  | .mount => .mount
  | .resume | .resumeProduction => .resume
  | _ => id

theorem Action.effect_run (a : Action) (w : World M B) :
    (a.effect w).src.run = a.onRun w.src.run := by
  cases a <;> rfl

/-- What the script is told of the state: nothing or the truth. -/
def Told (r : Run) (status : Status) : Prop :=
  status = {} ∨ status.running = decide (r = .running ∨ r = .frozen) ∧
    status.mounted = decide (r ≠ .stopped)

theorem told_of_exec {o : Status} {w w' : World M B} (h : Cmd.status.exec (B := B) o w = some w') :
    Told w.src.run o ∧ w' = w := by
  simp only [Cmd.exec] at h
  split_ifs at h with ho
  refine ⟨?_, (Option.some.inj h).symm⟩
  rcases ho with rfl | rfl
  · exact Or.inr ⟨rfl, rfl⟩
  · exact Or.inl rfl

namespace Told

variable {r : Run} {status : Status}

theorem running (h : Told r status) (hr : status.running = true) : r = .running ∨ r = .frozen := by
  rcases h with rfl | ⟨h, -⟩
  · cases hr
  · simpa [hr] using h

theorem mounted (h : Told r status) (hr : status.running = false) (hm : status.mounted = true) :
    r = .mounted := by
  rcases h with rfl | ⟨h, h'⟩
  · cases hm
  · cases r <;> simp_all

theorem stopped (h : Told r status) (hr : status.running = false) (hm : status.mounted = false) :
    status = {} ∨ r = .stopped := by
  rcases h with rfl | ⟨h, h'⟩
  · exact Or.inl rfl
  · cases r <;> simp_all

end Told

/-- The state of the source container from when it has been suspended or stopped. -/
def parked (v : Vars) (r : Run) : Run :=
  if v.opts.online then r.suspend
  else if v.status.running then r.stop
  else if v.status.mounted then r.umount
  else r

theorem write_run {x : Write M B} {w w' : World M B} (h : write x w = some w') :
    w'.src.run = w.src.run := by
  obtain ⟨-, ⟨m, rfl⟩ | ⟨path, b, -, rfl⟩⟩ := write_cases h
  · rfl
  · rfl

theorem stable_run (P : Run → Prop) : Stable (write (M := M) (B := B)) fun w => P w.src.run :=
  Stable.of_eq (fun w => w.src.run) (fun _ _ _ h => write_run h) P

/-! ### Quiet commands -/

/-- No container starts, stops or is suspended, and no configuration is written. -/
def Action.Quiet : Action → Prop
  | .scpConf _ | .setPaths _ => False
  | .suspend | .stop | .umount | .start | .mount | .resume | .resumeProduction => False
  | .undump | .dstResume | .dstStart | .dstMount | .dstKill => False
  | _ => True

/-- The same of a command that is not one of those that take the lock or ask for the state. -/
def Cmd.Quiet : Cmd → Prop
  | .act a => a.Quiet
  | .lock _ | .status | .ploopCopy _ _ _ => False
  | _ => True

abbrev Call.Quiet (c : Call) : Prop := c.cmd.Quiet

/-- A check, or a command that releases the lock. -/
def Cmd.Looks : Cmd → Prop
  | .query _ | .source _ | .testLock | .catLock | .testDdxml | .remoteConf | .remoteLink => True
  | .ploopInfo | .ploopFeedback | .act .rmLock => True
  | _ => False

abbrev Call.Looks (c : Call) : Prop := c.cmd.Looks

theorem Cmd.Looks.quiet {c : Cmd} (hc : c.Looks) : c.Quiet := by
  cases c with
  | act a => cases a <;> first | exact hc.elim | trivial
  | _ => first | exact hc.elim | trivial

/-- The link of the chain of `undo` functions at which an action stands: 1 for `undo_conf` and so on
up to 12 for `undo_undump`. That of `undo_dump`, to which none of the later ones leads, counts as
13, and so do the actions of the main part. -/
def Action.link : Action → ℕ
  | .rmLock => 0
  | .setName | .rmConf => 1
  | .rmActScripts => 2
  | .rmDumpFile => 3
  | .rmPrivate | .rmPrivateTarget _ => 4
  | .rmRoot => 5
  | .quotaDrop => 6
  | .quotaOff => 7
  | .resume | .start | .mount => 8
  | .rmDstDump => 9
  | .rmQuotaDump => 10
  | .rmDstQuotaDump => 11
  | .dstKill => 12
  | _ => 13

/-- A command of the chain up to some link. -/
def Call.Below (k : ℕ) (c : Call) : Prop :=
  match c.cmd with
  | .act a => a.link ≤ k
  | .catLock | .remoteLink => True
  | _ => False

theorem Call.Below.mono {k m : ℕ} {c : Call} (h : c.Below k) (hkm : k ≤ m) : c.Below m := by
  obtain ⟨i, c⟩ := c
  cases c with
  | act a => exact Nat.le_trans h hkm
  | _ => exact h

/-- The chain up to `undo_sync` leaves the container alone. -/
theorem Call.Below.quiet {k : ℕ} {c : Call} (h : c.Below k) (hk : k ≤ 7) : c.Quiet := by
  have h7 := h.mono hk
  obtain ⟨i, c⟩ := c
  cases c with
  | act a => cases a <;> first | exact absurd (show _ ≤ 7 from h7) (by decide) | trivial
  | catLock | remoteLink => trivial
  | _ => exact h7.elim

/-- **Quiet commands.** -/
theorem Cmd.Quiet.exec {c : Cmd} (hc : c.Quiet) {o : c.Out B} {w w' : World M B}
    (h : c.exec o w = some w') :
    w'.src.run = w.src.run ∧ w'.src.ploop = w.src.ploop ∧ w'.dst.run = w.dst.run ∧
      w'.dst.vzconf = w.dst.vzconf := by
  rcases Cmd.exec_cases h with rfl | ⟨a, rfl, rfl⟩ | ⟨pid, owner, rfl, -⟩ | ⟨tree, top, -, rfl⟩ |
    ⟨exclude, tree, -, rfl⟩ | ⟨feedback, freeze, top, tree, rfl, -⟩
  · exact ⟨rfl, rfl, rfl, rfl⟩
  · cases a <;> first | exact hc.elim | exact ⟨rfl, rfl, rfl, rfl⟩
  · exact hc.elim
  · exact ⟨rfl, rfl, rfl, rfl⟩
  · exact ⟨rfl, rfl, rfl, rfl⟩
  · exact hc.elim

theorem Cmd.exec_lock {pid : ℕ} {o : (Cmd.lock pid).Out B} {w w' : World M B}
    (h : (Cmd.lock pid).exec o w = some w') : w'.src = w.src ∧ w'.dst = w.dst := by
  rcases Cmd.exec_cases h with rfl | ⟨a, ⟨⟩, -⟩ | ⟨pid, owner, -, rfl⟩ |
    ⟨tree, top, ⟨⟨⟩⟩ | ⟨⟨⟩⟩, -⟩ | ⟨exclude, tree, ⟨⟨⟩⟩ | ⟨⟨⟩⟩, -⟩ |
    ⟨feedback, freeze, top, tree, ⟨⟩, -⟩
  · exact ⟨rfl, rfl⟩
  · exact ⟨rfl, rfl⟩

theorem Cmd.Looks.exec {c : Cmd} (hc : c.Looks) {o : c.Out B} {w w' : World M B}
    (h : c.exec o w = some w') : w'.src = w.src ∧ w'.dst = w.dst := by
  rcases Cmd.exec_cases h with rfl | ⟨a, rfl, rfl⟩ | ⟨pid, owner, rfl, -⟩ |
    ⟨tree, top, rfl | rfl, -⟩ | ⟨exclude, tree, rfl | rfl, -⟩ |
    ⟨feedback, freeze, top, tree, rfl, -⟩
  · exact ⟨rfl, rfl⟩
  · cases a <;> first | exact hc.elim | exact ⟨rfl, rfl⟩
  all_goals exact hc.elim

/-! ### The chain of `undo` functions -/

section All

variable {E : ℕ → Prop}

theorem issue_all {P : Call → Prop} {i : Issuer} {c : Cmd} (h : P ⟨i, c⟩) :
    (issue i c).All P (fun _ => True) E :=
  ⟨h, fun _ => trivial⟩

theorem ignore_all {α : Type} {P : Call → Prop} {p : Script α} (hp : p.All P (fun _ => True) E) :
    p.ignore.All P (fun _ => True) E :=
  Prog.All.ignore hp trivial

theorem act_all {P : Call → Prop} {a : Action} (h : P ⟨.main, .act a⟩) :
    (act a).All P (fun _ => True) E :=
  issue_all h

theorem quiet_of_looks {α : Type} {p : Script α} {Q : α → Prop} (h : p.All Call.Looks Q E) :
    p.All Call.Quiet Q E :=
  h.mono (fun _ hc => hc.quiet) (fun _ h => h) fun _ h => h

theorem quiet_of_below {α : Type} {p : Script α} {Q : α → Prop} {k : ℕ}
    (h : p.All (Call.Below k) Q E) (hk : k ≤ 7) : p.All Call.Quiet Q E :=
  h.mono (fun _ hc => hc.quiet hk) (fun _ h => h) fun _ h => h

/-- One link of the chain and the links below it. -/
theorem link_below {α : Type} {p : Script α} {q : Script Unit} {k m : ℕ}
    (hp : p.All (Call.Below m) (fun _ => True) E) (hq : q.All (Call.Below k) (fun _ => True) E)
    (hkm : k ≤ m) : (p >>= fun _ => q).All (Call.Below m) (fun _ => True) E :=
  hp.bind fun _ _ => hq.mono (fun _ hc => hc.mono hkm) (fun _ h => h) fun _ h => h

theorem undo_below {a : Action} {k : ℕ} (ha : a.link ≤ k) :
    (undo a).All (Call.Below k) (fun _ => True) E :=
  ignore_all (issue_all ha)

theorem query_looks (q : Query) : (query q).All Call.Looks (fun _ => True) E :=
  issue_all trivial

theorem query_all (q : Query) : (query q).All Call.Quiet (fun _ => True) E :=
  quiet_of_looks (query_looks q)

theorem giveUp_all {P : Call → Prop} {Q : Unit → Prop} {p : Script Unit} {n : ℕ}
    (hp : p.All P (fun _ => True) E) (hn : E n) : (giveUp p n).All P Q E :=
  hp.bind fun _ _ => hn

/-- A step that gives up if it fails. -/
theorem orDo_giveUp_all {P : Call → Prop} {p : Script Bool} {q : Script Unit} {n : ℕ}
    (hp : p.All P (fun _ => True) E) (hq : q.All P (fun _ => True) E) (hn : E n) :
    (p.orDo (giveUp q n)).All P (fun _ => True) E :=
  Prog.All.orDo hp trivial (giveUp_all hq hn)

theorem when_all {P : Call → Prop} {b : Bool} {p : Script Unit}
    (hp : p.All P (fun _ => True) E) : (Prog.when b p).All P (fun _ => True) E :=
  Prog.All.when (fun _ => hp) fun _ => trivial

theorem undoLock_lock (pid : ℕ) :
    (undoLock pid).All (fun c => c.cmd = .catLock ∨ c.cmd = .act .rmLock) (fun _ => True) E := by
  refine (issue_all (Or.inl rfl)).bind fun owner _ => ?_
  split_ifs
  · exact ignore_all (issue_all (Or.inr rfl))
  · trivial

theorem undoLock_looks (pid : ℕ) : (undoLock pid).All Call.Looks (fun _ => True) E := by
  refine (undoLock_lock pid).mono ?_ (fun _ h => h) fun _ h => h
  rintro ⟨i, c⟩ (rfl | rfl) <;> trivial

theorem undoLock_all (pid : ℕ) : (undoLock pid).All Call.Quiet (fun _ => True) E :=
  quiet_of_looks (undoLock_looks pid)

theorem undoLock_below (pid : ℕ) : (undoLock pid).All (Call.Below 0) (fun _ => True) E := by
  refine (undoLock_lock pid).mono ?_ (fun _ h => h) fun _ h => h
  rintro ⟨i, c⟩ (rfl | rfl)
  · trivial
  · exact Nat.le.refl

variable (v : Vars)

theorem undoConf_below : (undoConf v).All (Call.Below 1) (fun _ => True) E :=
  link_below (undo_below Nat.le.refl)
    (link_below (undo_below Nat.le.refl) (undoLock_below v.pid) (by omega)) Nat.le.refl

theorem undoActScripts_below : (undoActScripts v).All (Call.Below 2) (fun _ => True) E :=
  link_below (when_all (undo_below Nat.le.refl)) (undoConf_below v) (by omega)

theorem undoDumpFile_below : (undoDumpFile v).All (Call.Below 3) (fun _ => True) E :=
  link_below (when_all (undo_below Nat.le.refl)) (undoActScripts_below v) (by omega)

/-- The removal of the private area, or of the directory to which it is a link. -/
theorem removePrivate_below : Prog.All (Call.Below 4) (fun _ => True) E
    (issue .undo .remoteLink >>= fun (link : Option String) =>
      match link with
      | some dir => undo (.rmPrivateTarget dir)
      | none => undo .rmPrivate) := by
  refine (issue_all (by trivial)).bind ?_
  intro link _
  cases link with
  | some dir => exact undo_below Nat.le.refl
  | none => exact undo_below Nat.le.refl

theorem undoPrivate_below : (undoPrivate v).All (Call.Below 4) (fun _ => True) E :=
  link_below (when_all removePrivate_below) (undoDumpFile_below v) (by omega)

theorem undoRoot_below : (undoRoot v).All (Call.Below 5) (fun _ => True) E :=
  link_below (undo_below Nat.le.refl) (undoPrivate_below v) (by omega)

theorem undoQuotaInit_below : (undoQuotaInit v).All (Call.Below 6) (fun _ => True) E :=
  link_below (when_all (undo_below Nat.le.refl)) (undoRoot_below v) (by omega)

theorem undoQuotaOn_below : (undoQuotaOn v).All (Call.Below 7) (fun _ => True) E :=
  link_below (when_all (undo_below Nat.le.refl)) (undoQuotaInit_below v) (by omega)

theorem undoSync_below : (undoSync v).All (Call.Below 7) (fun _ => True) E := undoQuotaOn_below v

theorem undoSync_all : (undoSync v).All Call.Quiet (fun _ => True) E :=
  quiet_of_below (undoSync_below v) Nat.le.refl

theorem undoSuspend_below : (undoSuspend v).All (Call.Below 8) (fun _ => True) E :=
  link_below (undo_below Nat.le.refl) (undoSync_below v) (by omega)

theorem undoDump_below : (undoDump v).All (Call.Below 13) (fun _ => True) E :=
  link_below (undo_below Nat.le.refl) (undoSuspend_below v) (by omega)

theorem undoSourceStage_below : (undoSourceStage v).All (Call.Below 9) (fun _ => True) E := by
  unfold undoSourceStage
  split_ifs
  · exact link_below (undo_below Nat.le.refl) (undoSuspend_below v) (by omega)
  · refine link_below (when_all (undo_below (by decide))) ?_ Nat.le.refl
    exact link_below (when_all (undo_below (by decide))) (undoSync_below v) (by omega)

theorem undoQuotaDump_below : (undoQuotaDump v).All (Call.Below 10) (fun _ => True) E :=
  link_below (undo_below Nat.le.refl) (undoSourceStage_below v) (by omega)

theorem undoCopyQuota_below : (undoCopyQuota v).All (Call.Below 11) (fun _ => True) E :=
  link_below (undo_below Nat.le.refl) (undoQuotaDump_below v) (by omega)

theorem undoUndump_below : (undoUndump v).All (Call.Below 12) (fun _ => True) E :=
  link_below (undo_below Nat.le.refl) (undoCopyQuota_below v) (by omega)

/-- Where the main part itself restores the container. -/
theorem restore_below {a : Action} (ha : a.link ≤ 8) :
    (restore a >>= fun _ => undoSync v).All (Call.Below 8) (fun _ => True) E :=
  link_below (ignore_all (issue_all ha)) (undoSync_below v) (by omega)

end All

/-! ### The stages before the container is suspended or stopped -/

/-- `lock_ct` issues one command that is not quiet. -/
theorem lockCt_looks (pid : ℕ) :
    (lockCt pid).All (fun c => c.cmd = .lock pid ∨ c.Looks) (fun _ => True) (· ≠ 0) := by
  refine (issue_all (Or.inl rfl)).bind fun (locked : Bool) _ => ?_
  cases locked with
  | true => trivial
  | false =>
    refine (issue_all (Or.inr trivial)).bind fun (present : Bool) _ => ?_
    cases present with
    | false => exact Nat.one_ne_zero
    | true =>
      exact (ignore_all (issue_all (Or.inr trivial))).bind fun _ _ => trivial

theorem lockCt_all (pid : ℕ) :
    (lockCt pid).All (fun c => c.cmd = .lock pid ∨ c.Quiet) (fun _ => True) (· ≠ 0) :=
  (lockCt_looks pid).mono (fun _ h => h.imp_right Cmd.Looks.quiet) (fun _ h => h) fun _ h => h

theorem checkCptProps_looks (pid : ℕ) (o : Options) :
    (checkCptProps pid o).All Call.Looks (fun _ => True) (· ≠ 0) := by
  refine (query_looks _).bind fun version _ => (when_all ?_).bind fun _ _ =>
    (query_looks _).bind fun caps _ => when_all ?_
  · exact orDo_giveUp_all (query_looks _) (undoLock_looks pid) (by decide)
  · exact Prog.All.orDo (query_looks _) trivial
      (when_all (giveUp_all (undoLock_looks pid) (by decide)))

theorem checkOnline_looks (pid : ℕ) (o : Options) :
    (checkOnline pid o).All Call.Looks (fun _ => True) (· ≠ 0) := by
  refine (query_looks _).bind fun cptcheck _ => (when_all ?_).bind fun _ _ =>
    (query_looks _).bind fun ipv6 _ => when_all ?_
  · exact (query_looks _).bind fun _ _ => when_all (checkCptProps_looks pid o)
  · exact Prog.All.orDo (query_looks _) trivial
      (when_all (giveUp_all (undoLock_looks pid) (by decide)))

theorem checkNodes_looks (pid : ℕ) (o : Options) (status : Status) :
    (checkNodes pid o status).All Call.Looks (fun _ => True) (· ≠ 0) := by
  have hlock := undoLock_looks (E := (· ≠ 0)) pid
  refine (when_all (giveUp_all hlock (by decide))).bind fun _ _ => ?_
  refine (when_all (giveUp_all hlock (by decide))).bind fun _ _ => ?_
  refine (orDo_giveUp_all (query_looks _) hlock (by decide)).bind fun _ _ => ?_
  refine (orDo_giveUp_all (query_looks _) hlock (by decide)).bind fun _ _ => ?_
  refine (when_all ((orDo_giveUp_all (query_looks _) hlock (by decide)).bind fun _ _ =>
    orDo_giveUp_all (query_looks _) hlock (by decide))).bind fun _ _ => ?_
  refine (query_looks _).bind fun dstExists _ => ?_
  refine (when_all (giveUp_all hlock (by decide))).bind fun _ _ => ?_
  exact when_all (checkOnline_looks pid o)

theorem checkNodes_all (pid : ℕ) (o : Options) (status : Status) :
    (checkNodes pid o status).All Call.Quiet (fun _ => True) (· ≠ 0) :=
  quiet_of_looks (checkNodes_looks pid o status)

theorem source_looks (f : Sourced) : (source f).All Call.Looks (fun _ => True) (· ≠ 0) :=
  Prog.All.orDo (issue_all trivial) trivial Nat.one_ne_zero

theorem readConf_looks (pid : ℕ) : (readConf pid).All Call.Looks (fun _ => True) (· ≠ 0) := by
  refine (source_looks _).bind fun _ _ => (source_looks _).bind fun _ _ => ?_
  refine (issue_all (by trivial)).bind fun remote _ => (source_looks _).bind fun _ _ => ?_
  exact (when_all (giveUp_all (undoLock_looks pid) (by decide))).bind fun _ _ => trivial

theorem readConf_all (pid : ℕ) : (readConf pid).All Call.Quiet (fun _ => True) (· ≠ 0) :=
  quiet_of_looks (readConf_looks pid)

variable (v : Vars)

/-- With `--check-only` the script exits with success here. -/
theorem checkConf_looks : (checkConf v).All Call.Looks (fun _ => v.opts.checkOnly = false)
    (fun n => n = 0 → v.opts.checkOnly = true) := by
  have hlock := undoLock_looks (E := fun n => n = 0 → v.opts.checkOnly = true) v.pid
  have hexit : ∀ n ≠ 0, n = 0 → v.opts.checkOnly = true := fun n hn h => absurd h hn
  refine (when_all (orDo_giveUp_all (query_looks _) hlock (hexit _ (by decide)))).bind
    fun _ _ => ?_
  refine (when_all ((query_looks _).bind fun _ _ =>
    when_all (giveUp_all hlock (hexit _ (by decide))))).bind
    fun _ _ => ?_
  exact Prog.All.when (fun h => giveUp_all hlock fun _ => h) id

theorem checkConf_all : (checkConf v).All Call.Quiet (fun _ => v.opts.checkOnly = false)
    (fun n => n = 0 → v.opts.checkOnly = true) :=
  quiet_of_looks (checkConf_looks v)

theorem prepare_all : (prepare v).All Call.Quiet (fun _ => True) (· ≠ 0) := by
  have hconf := quiet_of_below (undoConf_below (E := (· ≠ 0)) v) (by omega)
  have hscripts := quiet_of_below (undoActScripts_below (E := (· ≠ 0)) v) (by omega)
  have hfile := quiet_of_below (undoDumpFile_below (E := (· ≠ 0)) v) (by omega)
  have hpriv := quiet_of_below (undoPrivate_below (E := (· ≠ 0)) v) (by omega)
  have hroot := quiet_of_below (undoRoot_below (E := (· ≠ 0)) v) (by omega)
  have hinit := quiet_of_below (undoQuotaInit_below (E := (· ≠ 0)) v) (by omega)
  refine (issue_all (by trivial)).bind fun ret _ => ?_
  refine (when_all (giveUp_all hconf (by decide))).bind fun _ _ => ?_
  refine (when_all (orDo_giveUp_all (act_all (by trivial)) hconf (by decide))).bind
    fun _ _ => ?_
  refine (when_all (orDo_giveUp_all (act_all (by trivial)) hscripts (by decide))).bind
    fun _ _ => ?_
  refine (orDo_giveUp_all (act_all (by trivial)) hfile (by decide)).bind
    fun _ _ => ?_
  refine (when_all (orDo_giveUp_all (act_all (by trivial)) hpriv (by decide))).bind
    fun _ _ => ?_
  refine (orDo_giveUp_all (act_all (by trivial)) hpriv (by decide)).bind fun _ _ => ?_
  refine when_all ?_
  refine (orDo_giveUp_all (act_all (by trivial)) hroot (by decide)).bind fun _ _ => ?_
  exact orDo_giveUp_all (act_all (by trivial)) hinit (by decide)

theorem compactSnapshot_all :
    (compactSnapshot v).All Call.Quiet (fun _ => True) (· ≠ 0) := by
  have hroot := quiet_of_below (undoRoot_below (E := (· ≠ 0)) v) (by omega)
  refine (when_all ?_).bind fun _ _ => when_all ?_
  · exact Prog.All.orDo (issue_all (by trivial)) trivial hroot
  · exact Prog.All.orDo (issue_all (by trivial)) trivial hroot

theorem getTopDelta_all : (getTopDelta v).All Call.Quiet (fun _ => True) (· ≠ 0) := by
  unfold getTopDelta
  split_ifs
  · refine (issue_all (by trivial)).bind ?_
    intro info _
    cases info with
    | some top => trivial
    | none =>
      exact (quiet_of_below (undoRoot_below v) (by omega)).bind fun _ _ =>
        (by decide : migErrCopy ≠ 0)
  · trivial

theorem vzfsync_all {E : ℕ → Prop} :
    (vzfsync v).All (fun c => ∃ q, c.cmd = .query q) (fun _ => True) E := by
  have hquery (q : Query) :
      (query q).All (fun c => ∃ q, c.cmd = .query q) (fun _ => True) E :=
    ⟨⟨q, rfl⟩, fun _ => trivial⟩
  refine when_all ?_
  refine (hquery _).bind fun files _ => when_all ?_
  exact (hquery _).bind fun present _ => when_all (ignore_all (hquery _))

theorem vzfsync_looks {E : ℕ → Prop} : (vzfsync v).All Call.Looks (fun _ => True) E := by
  refine (vzfsync_all v).mono ?_ (fun _ h => h) fun _ h => h
  rintro ⟨i, c⟩ ⟨q, rfl⟩
  trivial

theorem syncPrivate_all (top : String) :
    (syncPrivate v top).All Call.Quiet (fun _ => True) (· ≠ 0) := by
  refine (issue_all (by trivial)).bind fun ret _ => ?_
  refine (when_all (giveUp_all (undoSync_all v) (by decide))).bind fun _ _ => ?_
  exact quiet_of_looks (vzfsync_looks v)

/-! ### Later stages -/

/-- A command other than the one that takes the lock. -/
abbrev Call.Inside (c : Call) : Prop := ∀ pid, c.cmd ≠ .lock pid

theorem inside_of_quiet {α : Type} {p : Script α} {Q : α → Prop} {E : ℕ → Prop}
    (h : p.All Call.Quiet Q E) : p.All Call.Inside (fun _ => True) E := by
  refine h.mono (fun c hc pid hl => ?_) (fun _ _ => trivial) fun _ h => h
  rw [Call.Quiet, hl] at hc
  exact hc

theorem inside_of_below {α : Type} {p : Script α} {Q : α → Prop} {E : ℕ → Prop} {k : ℕ}
    (h : p.All (Call.Below k) Q E) : p.All Call.Inside (fun _ => True) E := by
  refine h.mono (fun c hc pid hl => ?_) (fun _ _ => trivial) fun _ h => h
  rw [Call.Below, hl] at hc
  exact hc

theorem act_inside {E : ℕ → Prop} (a : Action) : (act a).All Call.Inside (fun _ => True) E :=
  act_all fun _ h => by cases h

theorem ploopCopy_all {E : ℕ → Prop} {A : Call → Prop} {freeze : Freeze} {top : String}
    (hquery : ∀ q, A ⟨.main, .query q⟩) (hrm : A ⟨.main, .act (.rmDelta top)⟩)
    (hfeedback : A ⟨.main, .ploopFeedback⟩)
    (hcopy : ∀ feedback, A ⟨.main, .ploopCopy feedback freeze top⟩) :
    (ploopCopy freeze top).All A (fun _ => True) E := by
  refine Prog.All.bind (Q := fun _ => True) (issue_all (hquery _)) fun dev _ => ?_
  cases dev with
  | false => trivial
  | true =>
    refine Prog.All.bind (Q := fun _ => True) (issue_all (hquery _)) fun delta _ => ?_
    cases delta with
    | false => trivial
    | true =>
      refine (ignore_all (act_all hrm)).bind fun _ _ => ?_
      refine Prog.All.bind (Q := fun _ => True) (issue_all hfeedback) fun (err : ℕ) _ => ?_
      by_cases herr : err = 38
      · rw [if_pos herr]
        exact issue_all (hcopy false)
      · rw [if_neg herr]
        exact Prog.All.bind (Q := fun _ => True) (issue_all (hquery _)) fun alive _ =>
          issue_all (hcopy alive)

/-- What a live migration does when the copy runs does not exit. -/
theorem afterResume_all (v : Vars) :
    (undoLock v.pid >>= fun _ => Prog.ignore (act .resumeProduction) >>= fun _ =>
      Prog.ignore (act .rmDump) >>= fun _ => Prog.ignore (act .rmDstDump)).All (fun _ => True)
      (fun _ => True) fun _ => False := by
  have hignore (a : Action) : (Prog.ignore (act a)).All (fun _ => True) (fun _ => True)
      (fun _ => False) := ignore_all (act_all trivial)
  refine ((undoLock_all v.pid).mono (fun _ _ => trivial) (fun _ h => h) fun _ h => h).bind
    fun _ _ => ?_
  exact (hignore _).bind fun _ _ => (hignore _).bind fun _ _ => hignore _

/-- **`ploop_copy`** fails at one of its first checks, or ends with the copy itself. Of the checks
it is known how they can turn out. -/
theorem ploopCopy_triple {W N : Type} {S : Shell Call (fun c => c.cmd.Reply) W}
    {env : N → W → Option W} {G : W → S.Event → Prop} {P : W → Prop} {K : Bool → W → Prop}
    {E : ℕ → W → Prop} {freeze : Freeze} {top : String} (A : Query → Bool → Prop)
    (hP : Stable env P) (hquery : ∀ q, S.Triple env G P (query q) (fun ok w => A q ok ∧ P w) E)
    (hrm : S.Triple env G P (act (.rmDelta top)) (fun _ => P) E)
    (hfeedback : S.Triple env G P (run .ploopFeedback) (fun _ => P) E)
    (hfail : A .blockDev false ∨ A .topDelta false → ∀ w, P w → K false w)
    (hcopy : ∀ feedback, S.Triple env G P (run (.ploopCopy feedback freeze top)) K E) :
    S.Triple env G P (ploopCopy freeze top) K E := by
  have hcheck {α : Type} {q : Query} {k : Bool → Script α} {K : α → W → Prop}
      (hk : ∀ ok, A q ok → S.Triple env G P (k ok) K E) :
      S.Triple env G P (query q >>= k) K E :=
    (hquery q).bind fun ok => Shell.Triple.of_pure (fun _ h => h.1) fun hA =>
      (hk ok hA).conseq (fun _ h => h.2) (fun _ _ h => h) fun _ _ h => h
  refine hcheck fun dev hdev => ?_
  cases dev with
  | false => exact Shell.Triple.ret hP (hfail (Or.inl hdev))
  | true =>
    refine hcheck fun delta hdelta => ?_
    cases delta with
    | false => exact Shell.Triple.ret hP (hfail (Or.inr hdelta))
    | true =>
      refine (hrm.ignore fun _ => Shell.Triple.ret (Q := fun _ => P) hP fun _ h => h).bind
        fun _ => ?_
      refine hfeedback.bind fun (err : ℕ) => ?_
      by_cases herr : err = 38
      · rw [if_pos herr]
        exact hcopy false
      · rw [if_neg herr]
        exact hcheck fun alive _ => hcopy alive

end Parikshan.CloneManager
