import Parikshan.CloneManager.Stages

/-!
# The source container after a failure

Wherever the script fails it jumps into the chain of `undo` functions at the place that undoes what
it has done so far. Up to the first `rsync` it has done nothing to the source container. Between
suspending or stopping it and the end, the container is in a state that depends on the options and
on the state at the start only (`parked`), and `undo_source_stage` leads back from there.

The three commands with which the main part itself restores the container, when `ploop copy` or the
`umount` after it has failed, are not part of an `undo` function. If one of them fails the container
is left frozen, mounted only, or stopped.

## Main definitions

* `Restored`: the state of the source container is the one at the start.
* `UndoSucceeds`, `RestoreSucceeds`: the commands of the `undo` functions succeed, and all commands
  that restore something do.

## Main results

* `source_restored`: a run that ends with a failure has restored the source container.
* `source_restored_fails`: it need not if a command of the main part fails to restore it.
-/

namespace Parikshan.CloneManager

variable {M B : Type}

/-! ### States of the container -/

/-- The state is the one at the start. To resume a container that was suspended in memory at the
start is harmless. -/
def Restored (r run : Run) : Prop := run = r ∨ r = .frozen ∧ run = .running

instance (r run : Run) : Decidable (Restored r run) := inferInstanceAs (Decidable (_ ∨ _))

theorem Restored.rfl {r : Run} : Restored r r := Or.inl (Eq.refl r)

theorem restored_resume {r s : Run} (h : s = r ∨ s = r.suspend) : Restored r s.resume := by
  cases r <;> rcases h with rfl | rfl <;> decide

theorem restored_start {r s : Run} (hr : r = .running ∨ r = .frozen)
    (h : s = r ∨ s = r.stopSkipUmount ∨ s = r.stop) : Restored r s.start := by
  rcases hr with rfl | rfl <;> rcases h with rfl | rfl | rfl <;> decide

/-! ### Commands that restore something -/

/-- An action happens. -/
def Cmd.Happens : (c : Cmd) → c.Out B → Prop
  | .act _, (o : Bool) => o = true
  | _, _ => True

/-- The commands of the `undo` functions succeed. -/
def UndoSucceeds (_ : World M B) (e : (vzctl M B).Event) : Prop :=
  e.1.issuer = .undo → e.1.cmd.Happens e.2

/-- The commands of the `undo` functions succeed, and so do those by which the main part restores
the container. -/
def RestoreSucceeds (_ : World M B) (e : (vzctl M B).Event) : Prop :=
  e.1.issuer ≠ .main → e.1.cmd.Happens e.2

/-- The source container is in a state. -/
abbrev RunIs (r : Run) (w : World M B) : Prop := w.src.run = r

/-- What holds when the script exits. -/
abbrev Ends (r : Run) (n : ℕ) (w : World M B) : Prop := n ≠ 0 → Restored r w.src.run

section Spec

variable {α : Type} {r s : Run} {p : Script α}

variable (M B) in
/-- Triples of the script, if all commands that restore something succeed. -/
abbrev Spec (P : World M B → Prop) (p : Script α) (Q : α → World M B → Prop)
    (E : ℕ → World M B → Prop) : Prop :=
  (vzctl M B).Triple write RestoreSucceeds P p Q E

variable {Q : α → World M B → Prop} {E : ℕ → World M B → Prop}

theorem ret_spec {P : Run → Prop} {Q : Unit → World M B → Prop}
    (hQ : ∀ w : World M B, P w.src.run → Q () w) :
    Spec M B (fun w => P w.src.run) (.ret ()) Q E :=
  Shell.Triple.ret (stable_run P) hQ

/-- A program whose commands leave the state of the container alone. -/
theorem keep_spec {Pc : Call → Prop} {Pv : α → Prop} {Pe : ℕ → Prop} (hp : p.All Pc Pv Pe)
    (hPc : ∀ c, Pc c → ∀ (o : c.cmd.Out B) (w w' : World M B), c.cmd.exec o w = some w' →
      w'.src.run = w.src.run) (P : Run → Prop) :
    Spec M B (fun w => P w.src.run) p (fun a w => Pv a ∧ P w.src.run)
      fun n w => Pe n ∧ P w.src.run := by
  refine Shell.Triple.of_all hp (stable_run P) fun c hc o w w' hw _ h => ?_
  rw [hPc c hc o w w' h]
  exact hw

theorem quiet_spec {Pv : α → Prop} {Pe : ℕ → Prop} (hp : p.All Call.Quiet Pv Pe)
    (P : Run → Prop) :
    Spec M B (fun w => P w.src.run) p (fun a w => Pv a ∧ P w.src.run)
      fun n w => Pe n ∧ P w.src.run :=
  keep_spec hp (fun _ hc _ _ _ h => (Cmd.Quiet.exec hc h).1) P

theorem quiet_keep (hp : p.All Call.Quiet (fun _ => True) fun _ => False) (P : Run → Prop) :
    Spec M B (fun w => P w.src.run) p (fun _ w => P w.src.run) E := by
  refine Shell.Triple.keep hp (stable_run P) fun c hc o w w' hw _ h => ?_
  rw [(Cmd.Quiet.exec hc h).1]
  exact hw

/-- A stage of quiet commands may fail anywhere. -/
theorem quiet_stage {Pv : α → Prop} {Pe : ℕ → Prop} (hp : p.All Call.Quiet Pv Pe) :
    Spec M B (RunIs r) p (fun _ => RunIs r) (Ends r) :=
  (quiet_spec hp (· = r)).conseq (fun _ h => h) (fun _ _ h => h.2)
    fun _ w h _ => (show w.src.run = r from h.2) ▸ Restored.rfl

theorem act_spec (a : Action) :
    Spec M B (RunIs s) (act a) (fun (ok : Bool) => RunIs (bif ok then a.onRun s else s)) E := by
  refine Shell.Triple.issue (stable_run (· = s))
    (fun ok : Bool => stable_run (· = bif ok then a.onRun s else s)) fun o w w' hw _ h => ?_
  obtain rfl := Option.some.inj h
  cases o with
  | true => exact (a.effect_run w).trans (congrArg a.onRun hw)
  | false => exact hw

/-- A command that does not change the state of the container, and whose failure is ignored. -/
theorem ignore_spec {a : Action} (ha : a.onRun = id) :
    Spec M B (RunIs s) (Prog.ignore (act a)) (fun _ => RunIs s) E := by
  refine (act_spec a).ignore fun ok => ?_
  rw [ha]
  cases ok <;> exact ret_spec (P := (· = s)) fun _ h => h

/-- A command that restores something. -/
theorem restoring_spec {i : Issuer} (hi : i ≠ .main) (a : Action) :
    Spec M B (RunIs s) (Prog.ignore (issue i (.act a))) (fun _ => RunIs (a.onRun s)) E := by
  refine Shell.Triple.ignore (K := fun _ => RunIs (a.onRun s)) ?_ fun _ =>
    ret_spec (P := (· = a.onRun s)) fun _ h => h
  refine Shell.Triple.issue (stable_run (· = s)) (fun _ => stable_run (· = a.onRun s)) ?_
  intro o w w' hw hG h
  obtain rfl : o = true := hG hi
  obtain rfl := Option.some.inj h
  exact (a.effect_run w).trans (congrArg a.onRun hw)

theorem undo_spec (a : Action) :
    Spec M B (RunIs s) (undo a) (fun _ => RunIs (a.onRun s)) E :=
  restoring_spec (by decide) a

theorem restore_spec (a : Action) :
    Spec M B (RunIs s) (restore a) (fun _ => RunIs (a.onRun s)) E :=
  restoring_spec (by decide) a

theorem query_spec (q : Query) : Spec M B (RunIs s) (query q) (fun _ => RunIs s) E :=
  quiet_keep (query_all q) (· = s)

/-- Giving up with the container restored. -/
theorem giveUp_spec {P : World M B → Prop} {p : Script Unit} {n : ℕ} {Q : Unit → World M B → Prop}
    (hp : Spec M B P p (fun _ w => Restored r w.src.run) (Ends r)) :
    Spec M B P (giveUp p n) Q (Ends r) :=
  hp.bind fun _ => Shell.Triple.exit (stable_run (Restored r)) fun _ h _ => h

/-- A step that gives up with the container restored if it fails. -/
theorem step_spec {P : World M B → Prop} {p : Script Bool} {q : Script Unit} {n : ℕ}
    {K : Bool → World M B → Prop} {Q : Unit → World M B → Prop} (hp : Spec M B P p K (Ends r))
    (hok : Spec M B (K true) (.ret ()) Q (Ends r))
    (hq : Spec M B (K false) q (fun _ w => Restored r w.src.run) (Ends r)) :
    Spec M B P (p.orDo (giveUp q n)) Q (Ends r) :=
  hp.orDo hok (giveUp_spec hq)

/-! ### The chain of `undo` functions -/

variable (v : Vars)

theorem undoSync_spec (h : Restored r s) {E : ℕ → World M B → Prop} :
    Spec M B (RunIs s) (undoSync v) (fun _ w => Restored r w.src.run) E :=
  (quiet_keep (undoSync_all v) (· = s)).post fun _ w hw => (show w.src.run = s from hw) ▸ h

variable {v}

theorem undoSuspend_spec (h : s = r ∨ s = r.suspend) {E : ℕ → World M B → Prop} :
    Spec M B (RunIs s) (undoSuspend v) (fun _ w => Restored r w.src.run) E :=
  (undo_spec .resume).bind fun _ => undoSync_spec v (restored_resume h)

theorem undoDump_spec (h : s = r ∨ s = r.suspend) {E : ℕ → World M B → Prop} :
    Spec M B (RunIs s) (undoDump v) (fun _ w => Restored r w.src.run) E :=
  (undo_spec .rmDump).bind fun _ => undoSuspend_spec h

/-- **Back from the last copy.** -/
theorem undoSourceStage_spec (ht : Told r v.status) {E : ℕ → World M B → Prop} :
    Spec M B (RunIs (parked v r)) (undoSourceStage v) (fun _ w => Restored r w.src.run) E := by
  unfold undoSourceStage parked
  split_ifs with ho hr hm
  · exact (undo_spec .rmDstDump).bind fun _ => undoSuspend_spec (Or.inr rfl)
  · simp only [undoStop, hr, Prog.when, Bool.not_true, Bool.false_and]
    exact (undo_spec .start).bind fun _ =>
      undoSync_spec v (restored_start (ht.running hr) (Or.inr (Or.inr rfl)))
  · simp only [undoStop, hr, hm, Prog.when, Bool.not_false, Bool.and_self]
    obtain rfl := ht.mounted (by simpa using hr) hm
    exact (undo_spec .mount).bind fun _ => undoSync_spec v (by decide)
  · simp only [undoStop, hr, hm, Prog.when, Bool.and_false]
    exact undoSync_spec v .rfl

theorem undoQuotaDump_spec (ht : Told r v.status) {E : ℕ → World M B → Prop} :
    Spec M B (RunIs (parked v r)) (undoQuotaDump v) (fun _ w => Restored r w.src.run) E :=
  (undo_spec .rmQuotaDump).bind fun _ => undoSourceStage_spec ht

theorem undoCopyQuota_spec (ht : Told r v.status) {E : ℕ → World M B → Prop} :
    Spec M B (RunIs (parked v r)) (undoCopyQuota v) (fun _ w => Restored r w.src.run) E :=
  (undo_spec .rmDstQuotaDump).bind fun _ => undoQuotaDump_spec ht

theorem undoUndump_spec (ht : Told r v.status) {E : ℕ → World M B → Prop} :
    Spec M B (RunIs (parked v r)) (undoUndump v) (fun _ w => Restored r w.src.run) E :=
  (undo_spec .dstKill).bind fun _ => undoCopyQuota_spec ht

/-! ### The stages -/

/-- The state after `ploop copy`, which may fail before or after its freeze command. -/
def Copied.Leaves (freeze : Freeze) (r : Run) (ok : Bool) (run : Run) : Prop :=
  if ok then run = freeze.run r else run = r ∨ run = freeze.run r

theorem ploopCopy_spec (freeze : Freeze) (top : String) {E : ℕ → World M B → Prop} :
    Spec M B (RunIs r) (ploopCopy freeze top)
      (fun ok w => Copied.Leaves freeze r ok w.src.run) E := by
  refine ploopCopy_triple (fun _ _ => True) (stable_run (· = r)) (fun q => ?_) ?_ ?_
    (fun _ _ h => Or.inl h) ?_
  · exact (query_spec q).post fun _ _ h => ⟨trivial, h⟩
  · refine (act_spec (.rmDelta top)).post fun ok w h => ?_
    cases ok <;> exact h
  · exact Shell.Triple.issue (stable_run (· = r)) (fun _ => stable_run (· = r))
      fun o w w' hw _ h => Option.some.inj h ▸ hw
  · intro feedback
    refine Shell.Triple.issue (stable_run (· = r))
      (fun ok : Bool => stable_run (Copied.Leaves freeze r ok)) fun o w w' hw _ h => ?_
    obtain rfl : w.src.run = r := hw
    cases o with
    | ok => exact Option.some.inj h ▸ Eq.refl (freeze.run w.src.run)
    | early => exact Option.some.inj h ▸ Or.inl (Eq.refl w.src.run)
    | late => exact Option.some.inj h ▸ Or.inr (Eq.refl (freeze.run w.src.run))

/-- A command of the main part that does not change the state of the container. -/
theorem quietStep_spec {a : Action} (ha : a.onRun = id) {q : Script Unit} {n : ℕ}
    (hq : Spec M B (RunIs s) q (fun _ w => Restored r w.src.run) (Ends r)) :
    Spec M B (RunIs s) ((act a).orDo (giveUp q n)) (fun _ => RunIs s) (Ends r) := by
  refine step_spec (act_spec a) ?_ hq
  rw [ha]
  exact ret_spec (P := (· = s)) fun _ h => h

theorem suspendCt_spec (v : Vars) (top : String) :
    Spec M B (RunIs r) (suspendCt v top) (fun _ => RunIs r.suspend) (Ends r) := by
  unfold suspendCt
  split_ifs
  · refine step_spec (ploopCopy_spec .suspend top) (ret_spec fun w h => h) ?_
    -- a failed copy may have left the container suspended or not
    intro w h
    exact ((restore_spec .resume).bind fun _ => undoSync_spec v (restored_resume h)) w rfl
  · exact step_spec (act_spec .suspend) (ret_spec (P := (· = r.suspend)) fun _ h => h)
      (undoSync_spec v .rfl)

theorem suspendAndDump_spec (v : Vars) (top : String) :
    Spec M B (RunIs r) (suspendAndDump v top) (fun _ => RunIs r.suspend) (Ends r) := by
  refine (suspendCt_spec v top).bind fun _ => ?_
  exact (quietStep_spec rfl (undoSuspend_spec (Or.inr rfl))).bind fun _ =>
    quietStep_spec rfl (undoDump_spec (Or.inr rfl))

theorem stopCt_spec (v : Vars) (top : String) (hr : r = .running ∨ r = .frozen) :
    Spec M B (RunIs r) (stopCt v top) (fun _ => RunIs r.stop) (Ends r) := by
  unfold stopCt
  split_ifs
  · have hstop : r.stopSkipUmount.umount = r.stop := by
      rcases hr with rfl | rfl <;> rfl
    refine Shell.Triple.bind (Q := fun _ => RunIs r.stopSkipUmount) ?_ fun _ => ?_
    · refine step_spec (ploopCopy_spec .stop top) (ret_spec fun w h => h) ?_
      intro w h
      exact ((restore_spec .start).bind fun _ => undoSync_spec v
        (restored_start hr (h.imp_right Or.inl))) w rfl
    · rw [← hstop]
      refine step_spec (act_spec .umount) (ret_spec (P := (· = _)) fun _ h => h) ?_
      exact (restore_spec .start).bind fun _ =>
        undoSync_spec v (restored_start hr (Or.inr (Or.inl rfl)))
  · exact step_spec (act_spec .stop) (ret_spec (P := (· = r.stop)) fun _ h => h)
      (undoSync_spec v .rfl)

theorem suspendOrStop_spec (top : String) (ht : Told r v.status) :
    Spec M B (RunIs r) (suspendOrStop v top) (fun _ => RunIs (parked v r)) (Ends r) := by
  unfold suspendOrStop parked
  split_ifs with ho hr hm
  · exact suspendAndDump_spec v top
  · exact stopCt_spec v top (ht.running hr)
  · simp only [Prog.when, hm, if_true]
    exact step_spec (act_spec .umount) (ret_spec (P := (· = r.umount)) fun _ h => h)
      (undoSync_spec v .rfl)
  · simp only [Prog.when, hm]
    exact ret_spec (P := (· = r)) fun _ h => h

theorem syncPrivate2_spec (ht : Told r v.status) :
    Spec M B (RunIs (parked v r)) (syncPrivate2 v) (fun _ => RunIs (parked v r)) (Ends r) := by
  have hret : Spec M B (RunIs (parked v r)) (.ret ()) (fun _ => RunIs (parked v r)) (Ends r) :=
    ret_spec (P := (· = parked v r)) fun _ h => h
  refine Shell.Triple.when (fun _ => ?_) fun _ => hret
  have hsync : Spec M B (RunIs (parked v r)) (run .rsync2) (fun _ => RunIs (parked v r)) (Ends r) :=
    quiet_keep (issue_all (by trivial)) (· = parked v r)
  exact hsync.bind fun _ => Shell.Triple.when
    (fun _ => giveUp_spec (undoSourceStage_spec ht)) fun _ => hret

theorem syncQuota_spec (ht : Told r v.status) :
    Spec M B (RunIs (parked v r)) (syncQuota v) (fun _ => RunIs (parked v r)) (Ends r) := by
  refine Shell.Triple.when (fun _ => ?_) fun _ => ret_spec (P := (· = parked v r)) fun _ h => h
  refine (quietStep_spec rfl (undoQuotaDump_spec ht)).bind fun _ => ?_
  refine (quietStep_spec rfl (undoQuotaDump_spec ht)).bind fun _ => ?_
  exact quietStep_spec rfl (undoCopyQuota_spec ht)

/-- The last stage can fail only before the production container is resumed. -/
theorem restoreOrStart_spec (ht : Told r v.status) :
    Spec M B (RunIs (parked v r)) (restoreOrStart v) (fun _ _ => True) (Ends r) := by
  have hstep {a : Action} (ha : a.onRun = id) (n : ℕ) :
      Spec M B (RunIs (parked v r)) ((act a).orDo (giveUp (undoCopyQuota v) n))
        (fun _ _ => True) (Ends r) :=
    (quietStep_spec ha (undoCopyQuota_spec ht)).post fun _ _ _ => trivial
  unfold restoreOrStart
  split_ifs
  · refine (quietStep_spec rfl (undoCopyQuota_spec ht)).bind fun _ => ?_
    refine (quietStep_spec rfl (undoUndump_spec ht)).bind fun _ => ?_
    exact (Shell.Triple.of_all (I := fun _ => True) (afterResume_all v) (Stable.const True)
      fun _ _ _ _ _ _ _ _ => trivial).conseq (fun _ _ => trivial) (fun _ _ _ => trivial)
      fun _ _ h => h.1.elim
  · exact hstep rfl _
  · exact hstep rfl _
  · exact Shell.Triple.when (fun _ => hstep rfl _) fun _ =>
      ret_spec (P := (· = parked v r)) fun _ _ => trivial

theorem clone_spec (ht : Told r v.status) :
    Spec M B (RunIs r) (clone v) (fun _ _ => True) (Ends r) := by
  refine (quiet_stage (checkConf_all v)).bind fun _ => ?_
  refine Shell.Triple.bind (Q := fun _ => RunIs r) ?_ fun _ => ?_
  · refine Shell.Triple.bind (Q := fun _ => RunIs r) (quietStep_spec rfl ?_) fun _ =>
      ignore_spec rfl
    exact (quiet_stage (undoLock_all (E := fun _ => False) v.pid)).post fun _ w h =>
      (show w.src.run = r from h) ▸ Restored.rfl
  refine (quiet_stage (prepare_all v)).bind fun _ => ?_
  refine (quiet_stage (compactSnapshot_all v)).bind fun _ => ?_
  refine (quiet_stage (getTopDelta_all v)).bind fun top => ?_
  refine (quiet_stage (syncPrivate_all v top)).bind fun _ => ?_
  refine (suspendOrStop_spec top ht).bind fun _ => ?_
  refine (syncPrivate2_spec ht).bind fun _ => ?_
  refine (syncQuota_spec ht).bind fun _ => ?_
  refine (restoreOrStart_spec ht).bind fun _ => ?_
  exact Shell.Triple.exit (Stable.const True) fun _ _ h => absurd rfl h

variable (M B) in
theorem status_spec : Spec M B (RunIs r) (run .status) (fun status w => Told r status ∧ RunIs r w)
    (Ends r) := by
  refine Shell.Triple.issue (stable_run (· = r))
    (fun status => (Stable.const (Told r status)).and (stable_run (· = r))) ?_
  intro o w w' hw _ h
  obtain rfl : w.src.run = r := hw
  obtain ⟨ht, rfl⟩ := told_of_exec h
  exact ⟨ht, rfl⟩

variable (M B r) in
/-- **The script restores the source container.** -/
theorem vzclone_spec (pid : ℕ) (o : Options) (conf : Conf) :
    Spec M B (RunIs r) (vzclone pid o conf) (fun _ _ => True) (Ends r) := by
  have hexit (n : ℕ) : Spec M B (RunIs r) (Prog.exit n : Script Unit) (fun _ => RunIs r)
      (Ends r) :=
    Shell.Triple.exit (stable_run (· = r)) fun w h _ =>
      (show w.src.run = r from h) ▸ Restored.rfl
  have hret : Spec M B (RunIs r) (Prog.ret () : Script Unit) (fun _ => RunIs r) (Ends r) :=
    ret_spec (P := (· = r)) fun _ h => h
  have hlock : Spec M B (RunIs r) (lockCt pid) (fun _ => RunIs r) (Ends r) := by
    refine (keep_spec (lockCt_all pid) ?_ (· = r)).conseq (fun _ h => h) (fun _ _ h => h.2)
      fun _ w h _ => (show w.src.run = r from h.2) ▸ Restored.rfl
    rintro ⟨i, c⟩ (rfl | hc) o w w' h
    · rw [(Cmd.exec_lock h).1]
    · exact (Cmd.Quiet.exec hc h).1
  refine ((query_spec _).orDo hret (hexit _)).bind fun _ => ?_
  refine (hlock.orDo hret (hexit _)).bind fun _ => ?_
  refine (status_spec M B).bind fun status => Shell.Triple.of_pure (fun _ h => h.1) fun ht => ?_
  refine Shell.Triple.pre (P := RunIs r) ?_ fun _ h => h.2
  refine (quiet_stage (checkNodes_all pid o status)).bind fun _ => ?_
  refine (quiet_stage (readConf_all pid)).bind fun remote => ?_
  refine (quiet_stage (issue_all (E := fun _ => False) (by trivial))).bind fun ploop => ?_
  exact clone_spec ht

end Spec

/-! ### Failures -/

/-- **Failures restore the source container.** In every run of the script in which the commands that
restore something succeed, whatever fails else, whatever the options, the layout of the disk and
the state of the container at the start, and whatever the container writes meanwhile: if the script
exits with a status that is not zero, the source container is as it was at the start. -/
theorem source_restored {pid : ℕ} {o : Options} {conf : Conf} {w w' : World M B} {n : ℕ}
    {as : List ((vzctl M B).Event ⊕ Write M B)}
    (hG : ((vzctl M B).machine write).Along (Shell.Triple.Given RestoreSucceeds)
      (vzclone pid o conf, w) as)
    (hrun : ((vzctl M B).machine write).run (vzclone pid o conf, w) as = some (.exit n, w'))
    (hn : n ≠ 0) : Restored w.src.run w'.src.run :=
  (vzclone_spec M B w.src.run pid o conf).run rfl hG hrun hn

/-- A copy of the top delta that fails when the container has been stopped for it. The command that
starts the container again succeeds or not. -/
def lateCopy (restored : Bool) : (c : Call) → World Unit Unit → Option (c.cmd.Out Unit)
  | ⟨_, .ploopCopy _ _ _⟩, _ => some Copied.late
  | ⟨.restore, .act _⟩, _ => some restored
  | ⟨_, c⟩, w => some (c.usual w)

/-- The commands of `undo` functions all succeed here. -/
theorem lateCopy_happens {restored : Bool} {c : Call} {w : World Unit Unit}
    {o : c.cmd.Out Unit} (h : lateCopy restored c w = some o)
    (hc : c.issuer = .undo ∨ restored = true) : c.cmd.Happens o := by
  obtain ⟨i, c⟩ := c
  cases c with
  | act a =>
    cases i with
    | restore =>
      rcases hc with hc | rfl
      · cases hc
      · exact (Option.some.inj h).symm
    | main => exact (Option.some.inj h).symm
    | undo => exact (Option.some.inj h).symm
  | _ => trivial

/-- The run with these outcomes, without `--live`, of a container that runs from a `ploop` image. -/
def lateCopyRun (restored : Bool) :
    List (vzctl Unit Unit).Event × Script Unit × World Unit Unit :=
  (vzctl Unit Unit).play (lateCopy restored) (vzclone 1 {} { priv := "/vz/private" })
    (.start .running true () fun _ => some ())

theorem lateCopyRun_exit (restored : Bool) :
    ((vzctl Unit Unit).machine write).run
      (vzclone 1 {} { priv := "/vz/private" }, .start .running true () fun _ => some ())
      ((lateCopyRun restored).1.map Sum.inl) =
        some (.exit migErrCopy, (lateCopyRun restored).2.2) := by
  refine (Shell.run_play write _ _).trans ?_
  cases restored <;> rfl

theorem source_restored_lateCopy : Restored .running (lateCopyRun true).2.2.src.run :=
  source_restored
    (Shell.Triple.along_play (fun _ _ _ h _ _ => lateCopy_happens h (Or.inr rfl)) _ _)
    (lateCopyRun_exit true) (by decide)

/-- **The `undo` functions are not enough.** The commands of all `undo` functions succeed, the copy
of the top delta fails after the container has been stopped, and the command of the main part that
starts the container again fails: the script exits and leaves the container mounted. -/
theorem source_restored_fails :
    ¬ ∀ (pid : ℕ) (o : Options) (conf : Conf) (w w' : World Unit Unit) (n : ℕ)
      (as : List ((vzctl Unit Unit).Event ⊕ Write Unit Unit)),
      ((vzctl Unit Unit).machine write).Along (Shell.Triple.Given UndoSucceeds)
        (vzclone pid o conf, w) as →
      ((vzctl Unit Unit).machine write).run (vzclone pid o conf, w) as = some (.exit n, w') →
      n ≠ 0 → Restored w.src.run w'.src.run := by
  intro h
  have hbad : Restored .running (lateCopyRun false).2.2.src.run :=
    h _ _ _ _ _ _ _
      (Shell.Triple.along_play (fun _ _ _ h _ hc => lateCopy_happens h (Or.inl hc)) _ _)
      (lateCopyRun_exit false) (by decide)
  exact absurd (show Restored .running .mounted from hbad) (by decide)

end Parikshan.CloneManager
