import Parikshan.CloneManager.Restore
import Parikshan.CloneManager.Transparency

/-!
# What the exit status of a migration says

A migration has succeeded when the copy is in the state in which the container was and the container
on the source node does not run any more; when it has failed, the container is as it was, and there.
The script says so by its exit status, in every run in which the commands that restore something
succeed and the state of the container can be read. If it can not, the container counts as stopped
and not mounted, and the script exits with success beside a container that runs. After a failed
`--compact` or `--snapshot` it goes on without the configuration of the copy, and a container that
is stopped is then destroyed without one; if both work the copy is complete.

All this holds of commands that have no effect if they fail.

Up to the point at which the copy takes over, the script does to the source container what
`vzclone_vz48` does, and what is known of that carries over: the copy does not run yet, and so it
writes nothing.

## Main definitions

* `Run.arrived`: the state in which the copy is to be.
* `Given`: the condition on the outcomes.
* `Arrives`: what the exit status says.
* `HasCopy`: the configuration and the private area are on the destination node.

## Main results

* `vzmigrate_arrives`: the exit status is right.
* `vzmigrate_arrives_fails`: it is not if the state of the container could not be read.
-/

namespace Parikshan.CloneManager

variable {M B : Type}

/-- The state in which the copy is to be. -/
def Run.arrived : Run → Run
  | running => running
  | frozen => running
  | r => r

/-- The commands that restore something succeed. -/
def Restores (_ : World M B) (e : (migrator M B).Event) : Prop :=
  match e with
  | ⟨.inl c, o⟩ => c.issuer ≠ .main → c.cmd.Happens o
  | _ => True

/-- The state of the container is read. -/
def Reads (w : World M B) (e : (migrator M B).Event) : Prop :=
  match e with
  | ⟨.inl ⟨_, .status⟩, (o : Status)⟩ => o = w.src.status
  | _ => True

/-- What the script is told of the state if it can be read. -/
structure Knows (r : Run) (status : Status) : Prop where
  running : status.running = decide (r = .running ∨ r = .frozen)
  mounted : status.mounted = decide (r ≠ .stopped)

theorem Knows.told {r : Run} {status : Status} (h : Knows r status) : Told r status :=
  .inr ⟨h.running, h.mounted⟩

/-- The container is on the source node, and in the state in which it was. -/
def Stays (r : Run) (w : World M B) : Prop := Home w ∧ Restored r w.src.run

/-- The copy is in some state, and the container does not run on the source node. -/
def Rests (r : Run) (w : World M B) : Prop := w.src.run ≠ .running ∧ w.dst.run = r

/-- **What the exit status says.** -/
def Arrives (r : Run) (n : ℕ) (w : World M B) : Prop :=
  (n ≠ 0 → Stays r w) ∧ (n = 0 → Rests r.arrived w)

section Spec

variable {α : Type} {r s : Run} {p : Script α} {v : Vars}

theorem writeAt_run {x : Node × Write M B} {w w' : World M B} (h : writeAt x w = some w') :
    w'.src.run = w.src.run ∧ w'.dst.run = w.dst.run := by
  obtain ⟨node, x⟩ := x
  cases node with
  | src =>
    obtain ⟨-, ⟨m, rfl⟩ | ⟨path, b, -, rfl⟩⟩ := write_cases h
    · exact ⟨rfl, rfl⟩
    · exact ⟨rfl, rfl⟩
  | dst =>
    change writeDst x w = some w' at h
    unfold writeDst at h
    split_ifs at h
    cases x <;> obtain rfl := Option.some.inj h <;> exact ⟨rfl, rfl⟩

theorem stable_runs (P : Run → Run → Prop) :
    Stable (writeAt (M := M) (B := B)) fun w => P w.src.run w.dst.run := by
  intro x w w' h hx
  obtain ⟨hsrc, hdst⟩ := writeAt_run hx
  rw [hsrc, hdst]
  exact h

variable (M B) in
/-- Triples of the script that end as they should. -/
abbrev ArriveSpec (r : Run) (P : World M B → Prop) (p : Migration α)
    (Q : α → World M B → Prop) : Prop :=
  (migrator M B).Triple writeAt (fun w e => Restores w e ∧ Reads w e) P p Q (Arrives r)

/-- The copy has not been touched. -/
structure Intact (s : Run) (w : World M B) : Prop extends Home w where
  src : w.src.run = s
  idle : w.dst.run = .stopped

theorem Intact.stable : Stable writeAt (Intact (M := M) (B := B) s) := by
  intro x w w' h hx
  obtain ⟨hsrc, hdst⟩ := writeAt_run hx
  exact ⟨Home.stable x w w' h.toHome hx, hsrc.trans h.src, hdst.trans h.idle⟩

/-! ### What carries over -/

variable (M B) in
/-- The same of what the two scripts have in common. The state of the container may be unknown. -/
abbrev PartSpec (r : Run) (P : World M B → Prop) (p : Script α)
    (Q : α → World M B → Prop) : Prop :=
  (vzctl M B).Triple writeAt RestoreSucceeds P p Q (Arrives r)

theorem shared_arrives {P : World M B → Prop} {Q : α → World M B → Prop}
    (h : PartSpec M B r P p Q) : ArriveSpec M B r P (shared p) Q :=
  h.lift fun _ _ _ hG => hG.1

/-- What is known of a part of `vzclone_vz48` that does not make the copy run. -/
theorem confined_spec {P : World M B → Prop} {Q : α → World M B → Prop} {A : Call → Prop}
    {V : α → Prop} {I : World M B → Prop} (hp : p.All A V (· ≠ 0)) (hI : Stable writeAt I)
    (hhome : ∀ w, I w → Home w)
    (hcall : ∀ c, A c → ∀ (o : c.cmd.Out B) (w w' : World M B), I w →
      c.cmd.exec o w = some w' → I w')
    (h : Spec M B P p Q (Ends r)) :
    PartSpec M B r (fun w => P w ∧ I w) p fun a w => Q a w ∧ I w := by
  have henv (x : Node × Write M B) (w w' : World M B) (hw : I w) (hx : writeAt x w = some w') :
      ∃ y, write y w = some w' := by
    obtain ⟨node, x⟩ := x
    cases node with
    | src => exact ⟨x, hx⟩
    | dst =>
      simp only [writeAt, writeDst, if_neg (hhome w hw).dst] at hx
      cases hx
  exact (Shell.Triple.confined hp hI (fun c hc o w w' hw _ hx => hcall c hc o w w' hw hx)
    henv h).conseq (fun _ h => h) (fun _ _ h => h.2)
    fun n w hend => ⟨fun hn => ⟨hhome w hend.2.2, hend.2.1 hn⟩, fun hn => absurd hn hend.1⟩

theorem dormant_spec {P : World M B → Prop} {Q : α → World M B → Prop} {V : α → Prop}
    (hp : p.All Call.Dormant V (· ≠ 0)) (h : Spec M B P p Q (Ends r)) :
    PartSpec M B r (fun w => P w ∧ Home w) p fun a w => Q a w ∧ Home w :=
  confined_spec hp Home.stable (fun _ h => h) (fun _ hc _ _ _ hw hx => hw.exec hc hx) h

/-- An early command leaves the copy stopped. -/
theorem Call.Early.exec {c : Call} (hc : c.Early) {o : c.cmd.Out B} {w w' : World M B}
    (hx : c.cmd.exec o w = some w') (h : w.dst.run = .stopped) : w'.dst.run = .stopped := by
  rcases Cmd.exec_cases hx with rfl | ⟨a, ha, rfl⟩ | ⟨pid, owner, -, rfl⟩ | ⟨tree, top, -, rfl⟩ |
    ⟨exclude, tree, -, rfl⟩ | ⟨feedback, freeze, top, tree, -, rfl⟩
  · exact h
  · cases a with
    | dstResume | dstStart | undump | dstMount => exact absurd (by simp [ha]) hc
    | dstKill => rfl
    | _ => exact h
  all_goals exact h

theorem early_spec {s s' : Run} {V : α → Prop} (hp : p.All Call.Early V (· ≠ 0))
    (h : Spec M B (RunIs s) p (fun _ => RunIs s') (Ends r)) :
    PartSpec M B r (Intact s) p fun _ => Intact s' := by
  have hI : Stable writeAt fun w : World M B => Home w ∧ w.dst.run = .stopped :=
    Home.stable.and (stable_runs fun _ d => d = .stopped)
  refine (confined_spec hp hI (fun _ h => h.1) (fun _ hc _ _ _ hw hx => ?_) h).conseq
    (fun w h => ⟨h.src, h.toHome, h.idle⟩) (fun _ w h => ⟨h.2.1, h.1, h.2.2⟩) fun _ _ h => h
  exact ⟨hw.1.exec hc.dormant hx, hc.exec hx hw.2⟩

/-! ### The stages -/

/-- The configuration on the remote node. -/
theorem copyConf_keeps (v : Vars) :
    Spec M B (RunIs r) (copyConf v) (fun _ => RunIs r) (Ends r) := by
  refine Shell.Triple.bind (Q := fun _ => RunIs r) (quietStep_spec rfl ?_) fun _ =>
    ignore_spec rfl
  exact (quiet_stage (undoLock_all (E := fun _ => False) v.pid)).post fun _ w h =>
    (show w.src.run = r from h) ▸ Restored.rfl

theorem Intact.quiet {w w' : World M B} (h : Intact s w) {c : Call} (hc : c.Quiet)
    {o : c.cmd.Out B} (hx : c.cmd.exec o w = some w') : Intact s w' := by
  obtain ⟨hrun, -, hdst, -⟩ := Cmd.Quiet.exec hc hx
  exact ⟨h.toHome.exec (Call.Quiet.early hc).dormant hx, hrun.trans h.src, hdst.trans h.idle⟩

theorem Intact.lock {w w' : World M B} (h : Intact s w) {pid : ℕ} {o : (Cmd.lock pid).Out B}
    (hx : (Cmd.lock pid).exec o w = some w') : Intact s w' := by
  obtain ⟨hsrc, hdst⟩ := Cmd.exec_lock hx
  exact ⟨⟨hdst ▸ h.dst, hsrc ▸ h.exist⟩, hsrc ▸ h.src, hdst ▸ h.idle⟩

/-- The state of the container is known when the script has read it. -/
theorem setUp_arrives (pid : ℕ) (o : Options) (conf : Conf) :
    ArriveSpec M B r (Intact r) (shared (setUp pid o conf)) fun v w =>
      (v.opts = o ∧ Knows r v.status ∧ (v.opts.online = true → v.status.running = true)) ∧
        Intact r w := by
  refine Shell.Triple.lift (G := fun w e => Reads (M := M) (B := B) w ⟨.inl e.1, e.2⟩) ?_
    fun _ _ _ h => h.2
  have hstage {α : Type} {p : Script α} {A : Call → Prop} {V : α → Prop} (hp : p.All A V (· ≠ 0))
      (hA : ∀ c, A c → (∃ pid, c.cmd = .lock pid) ∨ c.Quiet) :
      (vzctl M B).Triple writeAt (fun w e => Reads (M := M) (B := B) w ⟨.inl e.1, e.2⟩) (Intact r) p
        (fun a w => V a ∧ Intact r w) (Arrives r) := by
    refine (Shell.Triple.of_all hp Intact.stable ?_).conseq (fun _ h => h) (fun _ _ h => h)
      fun n w h => ⟨fun _ => ⟨h.2.toHome, .inl h.2.src⟩, fun hn => absurd hn h.1⟩
    rintro ⟨i, c⟩ hc o w w' hw - hx
    rcases hA _ hc with ⟨pid, rfl⟩ | hc
    · exact hw.lock hx
    · exact hw.quiet hc hx
  have hskip {α : Type} {p : Script α} {A : Call → Prop} {V : α → Prop} (hp : p.All A V (· ≠ 0))
      (hA : ∀ c, A c → (∃ pid, c.cmd = .lock pid) ∨ c.Quiet) :
      (vzctl M B).Triple writeAt (fun w e => Reads (M := M) (B := B) w ⟨.inl e.1, e.2⟩) (Intact r) p
        (fun _ => Intact r) (Arrives r) :=
    (hstage hp hA).post fun _ _ h => h.2
  have hquiet (c : Call) (hc : c.Quiet) : (∃ pid, c.cmd = .lock pid) ∨ c.Quiet := .inr hc
  refine Shell.Triple.bind (Q := fun _ => Intact r) ?_ fun _ => ?_
  · exact hskip (Prog.All.orDo (Q := fun _ => True) (query_all _) trivial
      (by decide : migErrNoexist ≠ 0)) hquiet
  refine Shell.Triple.bind (Q := fun _ => Intact r) ?_ fun _ => ?_
  · refine hskip (Prog.All.orDo (Q := fun _ => True) (lockCt_all pid) trivial
      (by decide : migErrLocked ≠ 0)) ?_
    rintro c (hc | hc)
    · exact .inl ⟨pid, hc⟩
    · exact .inr hc
  refine Shell.Triple.bind (Q := fun (status : Status) w => Knows r status ∧ Intact r w) ?_
    fun (status : Status) => ?_
  · refine Shell.Triple.issue Intact.stable (fun _ => (Stable.const _).and Intact.stable) ?_
    intro (o : Status) w w' hw hG hx
    obtain ⟨-, rfl⟩ := told_of_exec hx
    obtain rfl : o = w'.src.status := hG
    exact ⟨hw.src ▸ ⟨rfl, rfl⟩, hw⟩
  refine Shell.Triple.of_pure (fun _ h => h.1) fun hknows => ?_
  refine Shell.Triple.pre (P := Intact r) ?_ fun _ h => h.2
  have hcheck : (checkNodes pid o status).All Call.Quiet
      (fun _ => o.online = true → status.running = true) (· ≠ 0) :=
    ((checkNodes_all pid o status).and (checkNodes_running pid o status)).mono (fun _ h => h.1)
      (fun _ h => h.2) fun _ h => h.1
  refine (hstage hcheck hquiet).bind fun _ => ?_
  refine Shell.Triple.of_pure (fun _ h => h.1) fun hlive => ?_
  refine Shell.Triple.pre (P := Intact r) ?_ fun _ h => h.2
  refine (hskip (readConf_all pid) hquiet).bind fun remote => ?_
  have hlayout : (run .testDdxml).All Call.Quiet (fun _ => True) (· ≠ 0) := issue_all trivial
  refine (hskip hlayout hquiet).bind fun ploop => ?_
  exact Shell.Triple.ret Intact.stable fun _ h => ⟨⟨rfl, hknows, hlive⟩, h⟩

/-- The container has been transferred, and the copy has not been touched. -/
theorem transfer_arrives (ht : Told r v.status) (hcheck : v.opts.checkOnly = false) :
    ArriveSpec M B r (Intact r) (shared (transfer v)) fun _ => Intact (parked v r) := by
  have hall : (transfer v).All Call.Early (fun _ => True) (· ≠ 0) := by
    refine (transfer_early v).mono (fun _ h => h) (fun _ h => h) fun n hn h => ?_
    cases hcheck.symm.trans (hn h)
  refine shared_arrives (early_spec hall ?_)
  refine (quiet_stage (checkConf_all v)).bind fun _ => ?_
  refine (copyConf_keeps v).bind fun _ => ?_
  refine (quiet_stage (prepare_all v)).bind fun _ => ?_
  refine (quiet_stage (compactSnapshot_all v)).bind fun _ => ?_
  refine (quiet_stage (getTopDelta_all v)).bind fun top => ?_
  refine (quiet_stage (syncPrivate_all v top)).bind fun _ => ?_
  refine (suspendOrStop_spec top ht).bind fun _ => ?_
  exact (syncPrivate2_spec ht).bind fun _ => syncQuota_spec ht

/-! ### The copy takes over -/

theorem Rests.stable : Stable writeAt (Rests (M := M) (B := B) s) :=
  stable_runs fun r d => r ≠ .running ∧ d = s

/-- The last step that can fail. -/
theorem attempt_arrives {P K : World M B → Prop} {a : Action} {q : Script Unit} {n : ℕ}
    (hP : Stable writeAt P) (hK : Stable writeAt K) (hhome : ∀ w, P w → RunIs s w ∧ Home w)
    (heffect : ∀ w, P w → K (a.effect w)) (hn : n ≠ 0)
    (hq : q.All Call.Dormant (fun _ => True) (· ≠ 0))
    (hundo : Spec M B (RunIs s) q (fun _ w => Restored r w.src.run) (Ends r)) :
    ArriveSpec M B r P (shared ((act a).orDo (giveUp q n))) fun _ => K := by
  have hgiveUp : PartSpec M B r P (giveUp q n) fun _ => K :=
    (dormant_spec (giveUp_all (Q := fun _ => True) hq hn)
      (giveUp_spec (Q := fun _ _ => False) hundo)).conseq hhome (fun _ _ h => h.1.elim)
      fun _ _ h => h
  refine shared_arrives (Shell.Triple.orDo (K := fun ok w => bif ok then K w else P w) ?_
    (Shell.Triple.ret hK fun _ h => h) hgiveUp)
  refine Shell.Triple.issue hP (fun ok => ?_) fun (o : Bool) w w' hw _ hx => ?_
  · cases ok with
    | true => exact hK
    | false => exact hP
  · obtain rfl := Option.some.inj hx
    cases o with
    | true => exact heffect w hw
    | false => exact hw

/-- From when the copy is in its state. -/
theorem late_arrives {p : Migration α} {V : α → Prop} (hp : p.All Late V (· = 0)) :
    ArriveSpec M B r (Rests r.arrived) p fun _ => Rests r.arrived := by
  refine (Shell.Triple.of_all hp Rests.stable fun e he o w w' hw _ hx => ?_).conseq
    (fun _ h => h) (fun _ _ h => h.2) fun n w h => ⟨fun hn => absurd h.1 hn, fun _ => h.2⟩
  obtain ⟨-, hsrc, hrun, -⟩ := he.exec hx
  exact ⟨hsrc hw.1, hrun.trans hw.2⟩

/-- A live migration. -/
theorem restoreCopy_arrives (ht : Told r v.status) (hr : v.status.running = true)
    (ho : v.opts.online = true) :
    ArriveSpec M B r (Intact (parked v r)) (restoreCopy v) fun _ => Rests r.arrived := by
  have hundo := dormant_of_below (undoCopyQuota_below (E := (· ≠ 0)) v) (by omega)
  have hundump := dormant_of_below (undoUndump_below (E := (· ≠ 0)) v) (by omega)
  have hparked : parked v r ≠ .running := by
    rw [parked, if_pos ho]
    cases r <;> decide
  have harrived : r.arrived = .running := by
    rcases ht.running hr with rfl | rfl <;> rfl
  have hundumped : PartSpec M B r (Intact (parked v r))
      ((act .undump).orDo (giveUp (undoCopyQuota v) migErrRestoreVps))
      fun _ w => RunIs (parked v r) w ∧ Home w :=
    (dormant_spec (orDo_giveUp_all (act_all (by simp [Call.Dormant])) hundo (by decide))
      (quietStep_spec rfl (undoCopyQuota_spec ht))).pre fun w h => ⟨h.src, h.toHome⟩
  refine (shared_arrives hundumped).bind fun _ => ?_
  refine Shell.Triple.bind (Q := fun _ => Rests r.arrived) ?_ fun _ => ?_
  · refine attempt_arrives (s := parked v r) ?_ Rests.stable (fun _ h => h) ?_ (by decide) hundump
      (undoUndump_spec ht)
    · exact (stable_runs fun s _ => s = parked v r).and Home.stable
    · exact fun w h => ⟨h.1 ▸ hparked, harrived.symm⟩
  · exact late_arrives (killing_late (E := (· = 0)))

/-- The copy is started, mounted, or left as it is. -/
theorem startCopy_arrives (hknows : Knows r v.status) (ho : v.opts.online = false) :
    ArriveSpec M B r (Intact (parked v r)) (shared (startCopy v)) fun _ => Rests r.arrived := by
  have hundo := dormant_of_below (undoCopyQuota_below (E := (· ≠ 0)) v) (by omega)
  have hstep {a : Action} {n : ℕ} (hn : n ≠ 0)
      (heffect : ∀ w : World M B, Intact (parked v r) w → Rests r.arrived (a.effect w)) :
      ArriveSpec M B r (Intact (parked v r)) (shared ((act a).orDo (giveUp (undoCopyQuota v) n)))
        fun _ => Rests r.arrived :=
    attempt_arrives Intact.stable Rests.stable (fun _ h => ⟨h.src, h.toHome⟩) heffect hn hundo
      (undoCopyQuota_spec hknows.told)
  unfold startCopy
  split_ifs with hr hm
  · have hparked : parked v r = r.stop := by simp [parked, ho, hr]
    refine hstep (by decide) fun w h => ⟨?_, ?_⟩
    · exact (h.src.trans hparked) ▸ (by cases r <;> decide)
    · rcases hknows.told.running hr with rfl | rfl <;> rfl
  · have hrun : v.status.running = false := by simpa using hr
    obtain rfl := hknows.told.mounted hrun hm
    have hparked : parked v .mounted = .stopped := by simp [parked, ho, hr, hm, Run.umount]
    exact hstep (by decide) fun w h => ⟨(h.src.trans hparked) ▸ (by decide), rfl⟩
  · have hmounted : v.status.mounted = false := by simpa using hm
    obtain rfl : r = .stopped := by simpa [hmounted] using hknows.mounted
    have hparked : parked v .stopped = .stopped := by simp [parked, ho, hr, hm]
    have hrests {w : World M B} (hsrc : w.src.run = parked v .stopped)
        (hdst : w.dst.run = .stopped) : Rests .stopped w :=
      ⟨(hsrc.trans hparked) ▸ (by decide), hdst⟩
    cases hq : v.diskQuota with
    | true => exact hstep (by decide) fun w h => hrests h.src h.idle
    | false =>
      refine (shared_arrives (Q := fun _ => Intact (parked v .stopped)) ?_).post
        fun _ w h => hrests h.src h.idle
      exact Shell.Triple.ret Intact.stable fun _ h => h

/-- **The copy takes over.** -/
theorem takeOver_arrives (hknows : Knows r v.status)
    (hlive : v.opts.online = true → v.status.running = true) :
    ArriveSpec M B r (Intact (parked v r)) (takeOver v) fun _ => Rests r.arrived := by
  unfold takeOver
  split_ifs with ho
  · exact restoreCopy_arrives hknows.told (hlive ho) ho
  · exact startCopy_arrives hknows (by simpa using ho)

variable (M B r) in
/-- **The exit status is right.** -/
theorem vzmigrate_spec (pid : ℕ) (removeArea : Bool) (o : Options) (conf : Conf)
    (hcheck : o.checkOnly = false) :
    ArriveSpec M B r (Intact r) (vzmigrate pid removeArea o conf) fun _ _ => True := by
  refine (setUp_arrives pid o conf).bind fun v => ?_
  refine Shell.Triple.of_pure (fun _ h => h.1) fun ⟨hopts, hknows, hlive⟩ => ?_
  refine Shell.Triple.pre (P := Intact r) ?_ fun _ h => h.2
  refine (transfer_arrives hknows.told (by rw [hopts, hcheck])).bind fun _ => ?_
  refine (takeOver_arrives hknows hlive).bind fun _ => ?_
  exact (late_arrives (finish_late removeArea v)).post fun _ _ _ => trivial

end Spec

/-! ### The copy is there -/

/-- Its configuration and its private area are on the destination node. -/
def HasCopy (w : World M B) : Prop := w.dst.config ≠ none ∧ w.dst.priv = true

/-- `--compact` and `--snapshot` work. If they do not, the script removes what it has copied of the
configuration, and goes on. -/
def Compacts (_ : World M B) (e : (migrator M B).Event) : Prop :=
  match e with
  | ⟨.inl ⟨_, .compact⟩, (o : Option (Tree B))⟩ => o.isSome = true
  | ⟨.inl ⟨_, .snapshot⟩, (o : Option (Tree B × String))⟩ => o.isSome = true
  | _ => True

/-- The configuration is there and, once it has been synced, the private area. -/
structure Laid (synced : Bool) (w : World M B) : Prop where
  config : w.dst.config ≠ none
  priv : synced = true → w.dst.priv = true

/-- The command removes neither. -/
def Cmd.Leaves : Cmd → Prop
  | .act .rmConf | .act .rmPrivate | .act (.rmPrivateTarget _) => False
  | _ => True

section Laid

variable {α : Type} {synced : Bool} {w w' : World M B} {p : Script α} {v : Vars}

theorem Laid.hasCopy (h : Laid true w) : HasCopy w := ⟨h.config, h.priv rfl⟩

theorem Laid.stable : Stable writeAt (Laid (M := M) (B := B) synced) := by
  rintro ⟨node, x⟩ w w' h hx
  cases node with
  | src => obtain ⟨-, ⟨m, rfl⟩ | ⟨path, b, -, rfl⟩⟩ := write_cases hx <;> exact ⟨h.config, h.priv⟩
  | dst =>
    change writeDst x w = some w' at hx
    unfold writeDst at hx
    split_ifs at hx
    cases x <;> obtain rfl := Option.some.inj hx <;> exact ⟨h.config, h.priv⟩

theorem Laid.exec {c : Cmd} (hc : c.Leaves) {o : c.Out B} (hx : c.exec o w = some w')
    (h : Laid synced w) : Laid synced w' := by
  rcases Cmd.exec_cases hx with rfl | ⟨a, rfl, rfl⟩ | ⟨pid, owner, -, rfl⟩ | ⟨tree, top, -, rfl⟩ |
    ⟨exclude, tree, -, rfl⟩ | ⟨feedback, freeze, top, tree, -, rfl⟩
  · exact h
  · cases a with
    | rmConf | rmPrivate | rmPrivateTarget dir => exact hc.elim
    | scpConf priv => exact ⟨Option.some_ne_none _, h.priv⟩
    | setPaths priv => exact ⟨fun hn => h.config (Option.map_eq_none_iff.mp hn), h.priv⟩
    | mkdirPrivateTarget dir => exact ⟨h.config, fun _ => rfl⟩
    | mkdirPrivate => exact ⟨h.config, fun _ => rfl⟩
    | _ => exact ⟨h.config, h.priv⟩
  · exact ⟨h.config, h.priv⟩
  · exact ⟨h.config, h.priv⟩
  · exact ⟨h.config, fun _ => rfl⟩
  · exact ⟨h.config, h.priv⟩

variable (M B) in
/-- Triples of the parts that the two scripts share. -/
abbrev LaySpec (P : World M B → Prop) (p : Script α) (Q : α → World M B → Prop) : Prop :=
  (vzctl M B).Triple writeAt (fun w e => Compacts w ⟨.inl e.1, e.2⟩) P p Q
    fun n w => n = 0 → HasCopy w

/-- A part after which nothing is claimed exits with a failure only. -/
theorem bare_spec {A : Call → Prop} {V : α → Prop} {P : World M B → Prop}
    (hp : p.All A V (· ≠ 0)) : LaySpec M B P p fun a _ => V a :=
  (Shell.Triple.of_all (I := fun _ => True) hp (Stable.const True)
    fun _ _ _ _ _ _ _ _ => trivial).conseq (fun _ _ => trivial) (fun _ _ h => h.1)
    fun _ _ h h0 => absurd h0 h.1

/-- A part that removes nothing. -/
theorem leaves_spec (hp : p.All (fun c => c.cmd.Leaves) (fun _ => True) (· ≠ 0)) :
    LaySpec M B (Laid synced) p fun _ => Laid synced :=
  (Shell.Triple.of_all hp Laid.stable fun _ hc _ _ _ hw _ hx => hw.exec hc hx).conseq
    (fun _ h => h) (fun _ _ h => h.2) fun _ _ h h0 => absurd h0 h.1

/-- After an `undo` function the script exits with a failure. -/
theorem giveUp_lays {P K : World M B → Prop} {A : Call → Prop} {q : Script Unit} {n : ℕ}
    (hq : q.All A (fun _ => True) (· ≠ 0)) (hn : n ≠ 0) :
    LaySpec M B P (giveUp q n) fun _ => K :=
  (bare_spec (giveUp_all (Q := fun _ => False) hq hn)).post fun _ _ h => h.elim

/-- A command that has to succeed. -/
theorem attempt_lays {A : Call → Prop} {p : Script Bool} {q : Script Unit} {n : ℕ}
    (hp : p.All (fun c => c.cmd.Leaves) (fun _ => True) (· ≠ 0))
    (hq : q.All A (fun _ => True) (· ≠ 0)) (hn : n ≠ 0) :
    LaySpec M B (Laid synced) (p.orDo (giveUp q n)) fun _ => Laid synced :=
  (leaves_spec hp).orDo (Shell.Triple.ret Laid.stable fun _ h => h) (giveUp_lays hq hn)

theorem step_lays {A : Call → Prop} {a : Action} {q : Script Unit} {n : ℕ}
    (ha : (Cmd.act a).Leaves) (hq : q.All A (fun _ => True) (· ≠ 0)) (hn : n ≠ 0) :
    LaySpec M B (Laid synced) ((act a).orDo (giveUp q n)) fun _ => Laid synced :=
  attempt_lays (act_all ha) hq hn

theorem when_lays {b : Bool} {q : Script Unit}
    (hq : b = true → LaySpec M B (Laid synced) q fun _ => Laid synced) :
    LaySpec M B (Laid synced) (Prog.when b q) fun _ => Laid synced :=
  Shell.Triple.when hq fun _ => Shell.Triple.ret Laid.stable fun _ h => h

theorem looks_lays (hp : p.All Call.Looks (fun _ => True) (· ≠ 0)) :
    LaySpec M B (Laid synced) p fun _ => Laid synced := by
  refine leaves_spec (hp.mono ?_ (fun _ h => h) fun _ h => h)
  rintro ⟨i, c⟩ hc
  cases c with
  | act a => cases a <;> first | exact hc.elim | trivial
  | _ => trivial

theorem copyConf_lays (v : Vars) :
    LaySpec M B (fun _ => True) (copyConf v) fun _ => Laid false := by
  refine Shell.Triple.bind (Q := fun _ => Laid false) ?_ fun _ =>
    leaves_spec (ignore_all (act_all (by trivial)))
  refine Shell.Triple.orDo (K := fun ok w => ok = true → Laid false w) ?_
    (Shell.Triple.ret (Laid.stable.imp _) fun _ h => h rfl)
    (giveUp_lays (undoLock_all v.pid) (by decide))
  refine Shell.Triple.issue (Stable.const True) (fun _ => Laid.stable.imp _) ?_
  intro (ok : Bool) w w' _ _ hx (hok : ok = true)
  obtain rfl := hok
  obtain rfl := Option.some.inj hx
  exact ⟨Option.some_ne_none _, fun h => by cases h⟩

theorem prepare_lays (v : Vars) :
    LaySpec M B (Laid synced) (prepare v) fun _ => Laid synced := by
  refine (leaves_spec (issue_all (by trivial))).bind fun ret => ?_
  refine (when_lays fun _ => giveUp_lays (undoConf_below v) (by decide)).bind fun _ => ?_
  refine (when_lays fun _ => step_lays (by trivial) (undoConf_below v) (by decide)).bind fun _ => ?_
  refine (when_lays fun _ => step_lays (by trivial) (undoActScripts_below v) (by decide)).bind
    fun _ => ?_
  refine (step_lays (by trivial) (undoDumpFile_below v) (by decide)).bind fun _ => ?_
  refine (when_lays fun _ => step_lays (by trivial) (undoPrivate_below v) (by decide)).bind
    fun _ => ?_
  refine (step_lays (by trivial) (undoPrivate_below v) (by decide)).bind
    fun _ => when_lays fun _ => ?_
  exact (step_lays (by trivial) (undoRoot_below v) (by decide)).bind fun _ =>
    step_lays (by trivial) (undoQuotaInit_below v) (by decide)

/-- Here the copied configuration may go. -/
theorem compactSnapshot_lays (v : Vars) :
    LaySpec M B (Laid synced) (compactSnapshot v) fun _ => Laid synced := by
  have hstep {c : Cmd} (ok : c.Reply → Bool) (hc : c.Leaves)
      (hG : ∀ (o : c.Out B) (w : World M B), Compacts w ⟨.inl ⟨.main, c⟩, o⟩ →
        ok (c.reply B o) = true) :
      (vzctl M B).Triple writeAt (fun w e => Compacts w ⟨.inl e.1, e.2⟩) (Laid synced) (run c)
        (fun r w => ok r = true ∧ Laid synced w) fun n w => n = 0 → HasCopy w := by
    refine Shell.Triple.issue Laid.stable (fun _ => (Stable.const _).and Laid.stable) ?_
    exact fun o w w' hw hcompacts hx => ⟨hG o w hcompacts, hw.exec hc hx⟩
  have hwhen {p : Script Bool} {q : Script Unit}
      (hp : LaySpec M B (Laid synced) p fun ok w => ok = true ∧ Laid synced w) :
      LaySpec M B (Laid synced) (p.orDo q) fun _ => Laid synced := by
    refine hp.orDo (Shell.Triple.ret ((Stable.const _).and Laid.stable) fun _ h => h.2) ?_
    exact Shell.Triple.of_pure (fun _ h => h.1) fun h => by cases h
  refine (when_lays fun _ => ?_).bind fun _ => when_lays fun _ => ?_
  · exact hwhen (hstep (c := .compact) id trivial fun _ _ h => h)
  · exact hwhen (hstep (c := .snapshot) id trivial fun _ _ h => h)

theorem getTopDelta_lays (v : Vars) :
    LaySpec M B (Laid synced) (getTopDelta v) fun _ => Laid synced := by
  unfold getTopDelta
  split_ifs
  · refine (leaves_spec (issue_all (by trivial))).bind fun (info : Option String) => ?_
    cases info with
    | some top => exact Shell.Triple.ret Laid.stable fun _ h => h
    | none =>
      refine (bare_spec (V := fun _ => False) ((undoRoot_below v).bind fun _ _ => ?_)).post
        fun _ _ h => h.elim
      exact (by decide : migErrCopy ≠ 0)
  · exact Shell.Triple.ret Laid.stable fun _ h => h

/-- From here on the private area is there. -/
theorem syncPrivate_lays (v : Vars) (top : String) :
    LaySpec M B (Laid false) (syncPrivate v top) fun _ => Laid true := by
  refine Shell.Triple.bind (Q := fun ret : ℕ => Laid (decide (ret = 0 ∨ ret = 24))) ?_
    fun ret => ?_
  · refine Shell.Triple.issue Laid.stable (fun _ => Laid.stable) fun o w w' hw _ hx => ?_
    obtain rfl := Option.some.inj hx
    by_cases hret : o.1 = 0 ∨ o.1 = 24
    · rw [if_pos hret]
      exact ⟨hw.config, fun _ => rfl⟩
    · rw [if_neg hret]
      exact ⟨hw.config, fun h => absurd (of_decide_eq_true h) hret⟩
  · refine Shell.Triple.bind (Q := fun _ => Laid true) ?_ fun _ => looks_lays (vzfsync_looks v)
    refine Shell.Triple.when (fun _ => giveUp_lays (undoQuotaOn_below v) (by decide)) fun hret => ?_
    have hok : decide (ret = 0 ∨ ret = 24) = true := by
      simp only [Bool.and_eq_false_iff, decide_eq_false_iff_not, not_not] at hret
      exact decide_eq_true hret.symm
    rw [hok]
    exact Shell.Triple.ret Laid.stable fun _ h => h

theorem ploopCopy_leaves (freeze : Freeze) (top : String) :
    (ploopCopy freeze top).All (fun c => c.cmd.Leaves) (fun _ => True) (· ≠ 0) :=
  ploopCopy_all (fun _ => trivial) trivial trivial fun _ => trivial

theorem suspendOrStop_lays (v : Vars) (top : String) :
    LaySpec M B (Laid synced) (suspendOrStop v top) fun _ => Laid synced := by
  unfold suspendOrStop suspendAndDump suspendCt stopCt
  have hdump : LaySpec M B (Laid synced)
      ((act .dump).orDo (giveUp (undoSuspend v) migErrCheckpoint) >>= fun _ =>
        (act .scpDump).orDo (giveUp (undoDump v) migErrCopy)) fun _ => Laid synced :=
    (step_lays (by trivial) (undoSuspend_below v) (by decide)).bind fun _ =>
      step_lays (by trivial) (undoDump_below v) (by decide)
  split_ifs
  · exact (attempt_lays (ploopCopy_leaves _ _) (restore_below v (by decide)) (by decide)).bind
      fun _ => hdump
  · exact (step_lays (by trivial) (undoSync_below v) (by decide)).bind fun _ => hdump
  · exact (attempt_lays (ploopCopy_leaves _ _) (restore_below v (by decide)) (by decide)).bind
      fun _ => step_lays (by trivial) (restore_below v (by decide)) (by decide)
  · exact step_lays (by trivial) (undoSync_below v) (by decide)
  · exact when_lays fun _ => step_lays (by trivial) (undoSync_below v) (by decide)

theorem syncPrivate2_lays (v : Vars) :
    LaySpec M B (Laid synced) (syncPrivate2 v) fun _ => Laid synced :=
  when_lays fun _ => (leaves_spec (issue_all (by trivial))).bind fun _ =>
    when_lays fun _ => giveUp_lays (undoSourceStage_below v) (by decide)

theorem syncQuota_lays (v : Vars) :
    LaySpec M B (Laid synced) (syncQuota v) fun _ => Laid synced :=
  when_lays fun _ => (step_lays (by trivial) (undoQuotaDump_below v) (by decide)).bind fun _ =>
    (step_lays (by trivial) (undoQuotaDump_below v) (by decide)).bind fun _ =>
      step_lays (by trivial) (undoCopyQuota_below v) (by decide)

/-- **The transfer** puts the copy on the destination node. -/
theorem transfer_lays (hcheck : v.opts.checkOnly = false) :
    LaySpec M B (fun _ => True) (transfer v) fun _ => Laid true := by
  have hconf : (checkConf v).All Call.Quiet (fun _ => True) (· ≠ 0) := by
    refine (checkConf_all v).mono (fun _ h => h) (fun _ _ => trivial) fun n hn h => ?_
    cases hcheck.symm.trans (hn h)
  refine (bare_spec hconf).bind fun _ => ?_
  refine (copyConf_lays v).bind fun _ => (prepare_lays v).bind fun _ => ?_
  refine (compactSnapshot_lays v).bind fun _ => (getTopDelta_lays v).bind fun top => ?_
  refine (syncPrivate_lays v top).bind fun _ => (suspendOrStop_lays v top).bind fun _ => ?_
  exact (syncPrivate2_lays v).bind fun _ => syncQuota_lays v

theorem setUp_lays (pid : ℕ) (o : Options) (conf : Conf) :
    LaySpec M B (fun _ => True) (setUp pid o conf) fun v _ => v.opts = o :=
  bare_spec (setUp_early pid o conf)

/-- None of the last commands removes it. -/
theorem Laid.late {e : Call ⊕ Cleanup} (he : Late e) {o : (migrator M B).Out e}
    (hx : (migrator M B).exec e o w = some w') (h : Laid synced w) : Laid synced w' := by
  match e, o with
  | .inl ⟨i, c⟩, o =>
    refine Laid.exec (c := c) ?_ hx h
    obtain rfl | ⟨a, rfl, rfl | rfl | rfl | rfl⟩ := he <;> trivial
  | .inr c, (o : Bool) =>
    change c.exec o w = some w' at hx
    cases c <;> simp only [Cleanup.exec] at hx <;> split_ifs at hx <;>
      obtain rfl := Option.some.inj hx <;> exact ⟨h.config, h.priv⟩

variable (M B) in
/-- **A migration that succeeds** leaves the copy there. -/
theorem vzmigrate_lays (pid : ℕ) (removeArea : Bool) (o : Options) (conf : Conf)
    (hcheck : o.checkOnly = false) :
    (migrator M B).Triple writeAt Compacts (fun _ => True) (vzmigrate pid removeArea o conf)
      (fun _ _ => True) fun n w => n = 0 → HasCopy w := by
  have hshared {α : Type} {p : Script α} {P : World M B → Prop} {Q : α → World M B → Prop}
      (hp : LaySpec M B P p Q) : (migrator M B).Triple writeAt Compacts P (shared p) Q
        fun n w => n = 0 → HasCopy w :=
    hp.lift fun _ _ _ hG => hG
  have hlate {α : Type} {p : Migration α} {V : α → Prop} {X : ℕ → Prop} (hp : p.All Late V X) :
      (migrator M B).Triple writeAt Compacts (Laid true) p (fun _ => Laid true)
        fun n w => n = 0 → HasCopy w :=
    (Shell.Triple.of_all hp Laid.stable fun _ hc _ _ _ hw _ hx => hw.late hc hx).conseq
      (fun _ h => h) (fun _ _ h => h.2) fun _ _ h _ => h.2.hasCopy
  refine (hshared (setUp_lays pid o conf)).bind fun v => ?_
  refine Shell.Triple.of_pure (fun _ h => h) fun hopts => ?_
  refine Shell.Triple.pre (P := fun _ => True) ?_ fun _ _ => trivial
  refine (hshared (transfer_lays (by rw [hopts, hcheck]))).bind fun _ => ?_
  refine Shell.Triple.bind (Q := fun _ => Laid true) ?_ fun _ =>
    (hlate (finish_late removeArea v)).post fun _ _ _ => trivial
  unfold takeOver
  split_ifs
  · refine (hshared (step_lays (by trivial) (undoCopyQuota_below v) (by decide))).bind fun _ => ?_
    refine (hshared (step_lays (by trivial) (undoUndump_below v) (by decide))).bind fun _ => ?_
    exact hlate (killing_late (E := fun _ => True))
  · refine hshared ?_
    unfold startCopy
    split_ifs
    · exact step_lays (by trivial) (undoCopyQuota_below v) (by decide)
    · exact step_lays (by trivial) (undoCopyQuota_below v) (by decide)
    · exact when_lays fun _ => step_lays (by trivial) (undoCopyQuota_below v) (by decide)

end Laid

/-! ### The exit status -/

/-- Everything goes well, but the state of the container may be unreadable. -/
def migratesUnread (unread : Bool) :
    (c : Call ⊕ Cleanup) → World ℕ ℕ → Option ((migrator ℕ ℕ).Out c)
  | .inl ⟨_, .status⟩, w => some (if unread then {} else w.src.status)
  | .inl c, w => some (c.cmd.usual w)
  | .inr _, _ => some true

theorem migratesUnread_restores {unread : Bool} {c : Call ⊕ Cleanup} {w : World ℕ ℕ}
    {o : (migrator ℕ ℕ).Out c} (h : migratesUnread unread c w = some o) :
    Restores w ⟨c, o⟩ ∧ (unread = false → Reads w ⟨c, o⟩) ∧ Compacts w ⟨c, o⟩ := by
  match c, o, h with
  | .inl ⟨i, c⟩, o, h =>
    cases c with
    | act a => exact ⟨fun _ => (Option.some.inj h).symm, fun _ => trivial, trivial⟩
    | status =>
      refine ⟨fun _ => trivial, ?_, trivial⟩
      rintro rfl
      exact (Option.some.inj h).symm
    | compact | snapshot =>
      obtain rfl := Option.some.inj h
      exact ⟨fun _ => trivial, fun _ => trivial, rfl⟩
    | _ => exact ⟨fun _ => trivial, fun _ => trivial, trivial⟩
  | .inr c, o, h => exact ⟨trivial, fun _ => trivial, trivial⟩

/-- The migration of a container that runs, without `--online`. -/
def unreadRun (unread : Bool) : List (migrator ℕ ℕ).Event × Migration Unit × World ℕ ℕ :=
  (migrator ℕ ℕ).play (migratesUnread unread) (vzmigrate 1 false {} { priv := "/vz/private" })
    (.start .running false 0 fun _ => some 0)

theorem unreadRun_exit (unread : Bool) : ((migrator ℕ ℕ).machine writeAt).run
    (vzmigrate 1 false {} { priv := "/vz/private" }, .start .running false 0 fun _ => some 0)
    ((unreadRun unread).1.map Sum.inl) = some (.exit 0, (unreadRun unread).2.2) := by
  refine (Shell.run_play writeAt _ _).trans ?_
  cases unread <;> rfl

/-- **The state has to be read.** If it can not be, and no command fails, the script copies the
files of a container that runs, moves its configuration out of the way and exits with success. -/
theorem vzmigrate_arrives_fails :
    ¬ ∀ (pid : ℕ) (removeArea : Bool) (o : Options) (conf : Conf) (w w' : World ℕ ℕ) (n : ℕ)
      (as : List ((migrator ℕ ℕ).Event ⊕ Node × Write ℕ ℕ)),
      w.src.exist = true → w.dst.run = .stopped → o.checkOnly = false →
      ((migrator ℕ ℕ).machine writeAt).Along (Shell.Triple.Given Restores)
        (vzmigrate pid removeArea o conf, w) as →
      ((migrator ℕ ℕ).machine writeAt).run (vzmigrate pid removeArea o conf, w) as =
        some (.exit n, w') →
      Arrives w.src.run n w' := by
  intro h
  have hrests : Arrives .running 0 (unreadRun true).2.2 :=
    h 1 false {} { priv := "/vz/private" } (.start .running false 0 fun _ => some 0)
      (unreadRun true).2.2 0 ((unreadRun true).1.map Sum.inl) rfl rfl rfl
      (Shell.Triple.along_play_at (G := Restores) (fun _ _ _ h => (migratesUnread_restores h).1)
        _ _)
      (unreadRun_exit true)
  exact absurd (show (unreadRun true).2.2.src.run = .running from rfl) (hrests.2 rfl).1

end Parikshan.CloneManager
