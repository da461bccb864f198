import Parikshan.CloneManager.Stages

/-!
# What success means

When the script exits with success the destination node ought to hold a copy of the container in
the state in which the container was at the start, and the container itself ought to be in that
state again. The script has been made from one that migrates a container, and in some places it
still behaves like one: without `--live` nothing starts or mounts the source container again, and
nothing looks at whether the production container could be resumed. Two more ways to exit with
success are that the copied configuration has been removed after a failed `compact` or `snapshot`,
and that it could not be made to name the private area of the destination node.

## Main definitions

* `Trail`: what happens in a run as far as it matters here.
* `TwoCopies`: what success ought to mean.
* `Cloned`: the condition under which it does.

## Main results

* `success_iff`: exactly then.
* `success_fails`: a container that was running is left stopped.
-/

namespace Parikshan.CloneManager

variable {M B : Type}

/-! ### What happens in a run -/

/-- What happens in a run. -/
structure Trail where
  /-- an `undo` function has removed the copied configuration -/
  removed : Bool := false
  /-- the paths in it have been set -/
  pointed : Bool := false
  /-- the production container has been resumed -/
  resumed : Bool := false
  /-- the state of the container could not be read -/
  blank : Bool := false
  deriving DecidableEq, Repr

def Trail.record (_ : World M B) (e : (vzctl M B).Event) (t : Trail) : Trail :=
  match e with
  | ⟨⟨_, .act (.scpConf _)⟩, (o : Bool)⟩ =>
    { t with removed := !o && t.removed, pointed := !o && t.pointed }
  | ⟨⟨_, .act .rmConf⟩, (o : Bool)⟩ => { t with removed := o || t.removed }
  | ⟨⟨_, .act (.setPaths _)⟩, (o : Bool)⟩ => { t with pointed := o || t.pointed }
  | ⟨⟨_, .act .resumeProduction⟩, (o : Bool)⟩ => { t with resumed := o }
  | ⟨⟨_, .status⟩, (o : Status)⟩ => { t with blank := decide (o = {}) }
  | _ => t

/-- **Two copies.** The configuration on the destination node names the private area there, which
has been synced, and both containers are in the state `r`. -/
def TwoCopies (r : Run) (w : World M B) : Prop :=
  w.dst.config = some w.dst.vzconf.priv ∧ w.dst.priv = true ∧ w.dst.run = r ∧ w.src.run = r

/-- **The condition.** The copied configuration stays and names the private area of the destination
node. With `--live` the container was running and has been resumed. Without it, the state in which
the container was is the one in which there was a container on the destination node anyhow, and the
container was stopped, or the script could not read its state and so did nothing to it. -/
def Cloned (o : Options) (conf : Conf) (w : World M B) (t : Trail) : Prop :=
  t.removed = false ∧ (t.pointed = true ∨ conf.priv = w.dst.vzconf.priv) ∧
    if o.online then w.src.run = .running ∧ t.resumed = true
    else w.dst.run = w.src.run ∧ (w.src.run = .stopped ∨ t.blank = true)

/-! ### Facts between the commands -/

/-- The effect of an action on the state of the copy. -/
def Action.onDst : Action → Run → Run
  | .undump => fun _ => .frozen
  | .dstResume | .dstStart => fun _ => .running
  | .dstMount => fun _ => .mounted
  | .dstKill => fun _ => .stopped
  | _ => id

theorem Action.effect_dst_run (a : Action) (w : World M B) :
    (a.effect w).dst.run = a.onDst w.dst.run := by
  cases a <;> rfl

theorem Action.effect_vzconf (a : Action) (w : World M B) :
    (a.effect w).dst.vzconf = w.dst.vzconf := by
  cases a <;> rfl

/-- An action that leaves the configuration and the private area of the copy. -/
def Action.KeepsCopy : Action → Prop
  | .scpConf _ | .setPaths _ | .rmConf | .rmPrivate | .rmPrivateTarget _ => False
  | _ => True

/-- What is known of a world and a trail: the states of both containers, the private area of the
destination node, whether the state could be read, and, once it has been copied, the configuration
and, once it has been synced, the private area. -/
structure Facts (s d : Run) (p c : String) (b copied synced : Bool) (x : World M B × Trail) :
    Prop where
  run : x.1.src.run = s
  dstRun : x.1.dst.run = d
  vzconf : x.1.dst.vzconf.priv = p
  blank : x.2.blank = b
  config : copied = true →
    x.1.dst.config = if x.2.removed then none else some (if x.2.pointed then p else c)
  priv : synced = true → x.1.dst.priv = true

namespace Facts

variable {s d : Run} {p c : String} {b copied synced : Bool}

theorem stable (t : Trail) :
    Stable write fun w : World M B => Facts s d p c b copied synced (w, t) := by
  intro x w w' h hw
  obtain ⟨-, ⟨m, rfl⟩ | ⟨path, b, -, rfl⟩⟩ := write_cases hw
  · exact ⟨h.run, h.dstRun, h.vzconf, h.blank, h.config, h.priv⟩
  · exact ⟨h.run, h.dstRun, h.vzconf, h.blank, h.config, h.priv⟩

theorem stable_track : Stable (Shell.trackEnv write)
    fun x : World M B × Trail => Facts s d p c b copied synced x :=
  Shell.stable_trackEnv stable

/-- An action that keeps the copy. -/
theorem act {i : Issuer} {a : Action} (ha : a.KeepsCopy) {w : World M B} {t : Trail}
    (h : Facts s d p c b copied synced (w, t)) (ok : Bool) :
    Facts (bif ok then a.onRun s else s) (bif ok then a.onDst d else d) p c b copied synced
      (bif ok then a.effect w else w, t.record w ⟨⟨i, .act a⟩, ok⟩) := by
  cases ok with
  | false => cases a <;> first | exact ha.elim | exact ⟨h.1, h.2, h.3, h.4, h.5, h.6⟩
  | true =>
    refine ⟨(a.effect_run w).trans (congrArg a.onRun h.run),
      (a.effect_dst_run w).trans (congrArg a.onDst h.dstRun),
      (congrArg RemoteConf.priv (a.effect_vzconf w)).trans h.vzconf, ?_, ?_, ?_⟩
    · cases a <;> exact h.blank
    · cases a <;> first | exact ha.elim | exact h.config
    · cases a <;> first | exact ha.elim | exact h.priv | exact fun _ => rfl

/-- A quiet command, as long as the private area does not matter. -/
theorem quiet {e : Call} (he : e.Quiet) {o : e.cmd.Out B} {w w' : World M B} {t : Trail}
    (h : Facts s d p c b copied false (w, t)) (hx : e.cmd.exec o w = some w') :
    Facts s d p c b copied false (w', t.record w ⟨e, o⟩) := by
  have hpriv : false = true → w'.dst.priv = true := fun h => by cases h
  obtain ⟨hr, -, hd, hv⟩ := Cmd.Quiet.exec he hx
  obtain ⟨i, cmd⟩ := e
  cases cmd with
  | act a =>
    obtain rfl := Option.some.inj hx
    cases o with
    | false => cases a <;> first | exact he.elim | exact ⟨h.1, h.2, h.3, h.4, h.5, hpriv⟩
    | true =>
      cases a with
      | rmConf =>
        exact ⟨h.1, h.2, h.3, h.4, fun _ => by simp [Trail.record, Action.effect], hpriv⟩
      | _ => first | exact he.elim | exact ⟨h.1, h.2, h.3, h.4, h.5, hpriv⟩
  | lock _ | status | ploopCopy _ _ _ => exact he.elim
  | _ =>
    have hconfig : w'.dst.config = w.dst.config := by
      rcases Cmd.exec_cases hx with rfl | ⟨a, ha, -⟩ | ⟨pid, owner, hl, -⟩ | ⟨tree, top, -, rfl⟩ |
        ⟨exclude, tree, -, rfl⟩ | ⟨feedback, freeze, top, tree, hc, -⟩
      · rfl
      · cases ha
      · cases hl
      · rfl
      · rfl
      · cases hc
    exact ⟨hr.trans h.run, hd.trans h.dstRun, (congrArg RemoteConf.priv hv).trans h.vzconf, h.blank,
      fun hc => hconfig.trans (h.config hc), hpriv⟩

end Facts

/-! ### The stages -/

section Spec

variable {α : Type} {p : Script α}

variable (M B) in
/-- Triples of the script with its trail, whatever the outcomes. -/
abbrev TrailSpec (P : World M B × Trail → Prop) (p : Script α)
    (Q : α → World M B × Trail → Prop) (E : ℕ → World M B × Trail → Prop) : Prop :=
  ((vzctl M B).track Trail.record).Triple (Shell.trackEnv write) (fun _ _ => True) P p Q E

/-- A run that exits with success has made two copies if and only if it has met the condition. -/
abbrev Reports (o : Options) (conf : Conf) (w₀ : World M B) (n : ℕ) (x : World M B × Trail) :
    Prop :=
  n = 0 → o.checkOnly = false → (TwoCopies w₀.src.run x.1 ↔ Cloned o conf w₀ x.2)

variable {o : Options} {conf : Conf} {w₀ : World M B} {P K : World M B × Trail → Prop}

/-- A failure needs no justification here. -/
theorem fail_spec {A : Call → Prop} {q : Script Unit} {Q : Unit → World M B × Trail → Prop}
    (hq : q.All A (fun _ => False) (· ≠ 0)) :
    TrailSpec M B P q Q (Reports o conf w₀) :=
  (Shell.Triple.of_all (I := fun _ => True) hq (Stable.const True)
    fun _ _ _ _ _ _ _ _ => trivial).conseq (fun _ _ => trivial) (fun _ _ h => h.1.elim)
    fun _ _ h h0 => absurd h0 h.1

/-- A step that gives up if it fails. -/
theorem attempt_spec {Pc : Call → Prop} {p : Script Bool} {q : Script Unit} {n : ℕ}
    (hp : TrailSpec M B P p (fun ok x => ok = true → K x) (Reports o conf w₀))
    (hK : Stable (Shell.trackEnv write) K)
    (hq : q.All Pc (fun _ => True) (· ≠ 0)) (hn : n ≠ 0) :
    TrailSpec M B P (p.orDo (giveUp q n)) (fun _ => K) (Reports o conf w₀) :=
  hp.orDo (Shell.Triple.ret (hK.imp _) fun _ h => h rfl) (fail_spec (giveUp_all hq hn))

theorem outcome_spec {i : Issuer} {c : Cmd} {Q : c.Reply → World M B × Trail → Prop}
    {E : ℕ → World M B × Trail → Prop} (hP : Stable (Shell.trackEnv write) P)
    (hQ : ∀ r, Stable (Shell.trackEnv write) (Q r))
    (h : ∀ o w w' t, P (w, t) → c.exec o w = some w' →
      Q (c.reply B o) (w', t.record w ⟨⟨i, c⟩, o⟩)) :
    TrailSpec M B P (issue i c) Q E :=
  Shell.Triple.track_issue (G := fun _ _ => True) hP hQ fun o w w' t hw _ hx => h o w w' t hw hx

variable {s d : Run} {pr c : String} {b copied synced : Bool}

/-- A stage of quiet commands. -/
theorem quietTrail_spec {Pv : α → Prop} {Pe : ℕ → Prop} (hp : p.All Call.Quiet Pv Pe)
    (hPe : ∀ n, Pe n → n = 0 → o.checkOnly = true) :
    TrailSpec M B (Facts s d pr c b copied false) p (fun _ => Facts s d pr c b copied false)
      (Reports o conf w₀) := by
  refine (Shell.Triple.track_all (G := fun _ _ => True) hp Facts.stable_track
    fun e he o w w' t hw _ hx => hw.quiet he hx).conseq (fun _ h => h) (fun _ _ h => h.2)
    fun n x h h0 ho => ?_
  · rw [hPe n h.1 h0] at ho
    cases ho

/-- An action that keeps the copy. -/
theorem actTrail_spec {a : Action} (ha : a.KeepsCopy) {E : ℕ → World M B × Trail → Prop} :
    TrailSpec M B (Facts s d pr c b copied synced) (act a)
      (fun (ok : Bool) => Facts (bif ok then a.onRun s else s) (bif ok then a.onDst d else d)
        pr c b copied synced) E := by
  refine outcome_spec Facts.stable_track (fun ok => Facts.stable_track) fun ok w w' t hw hx => ?_
  obtain rfl := Option.some.inj hx
  have hact := Facts.act (i := .main) ha hw ok
  cases ok <;> exact hact

/-- A command of the main part that must succeed and keeps the copy. -/
theorem stepTrail_spec {Pc : Call → Prop} {a : Action} (ha : a.KeepsCopy) {q : Script Unit} {n : ℕ}
    (hq : q.All Pc (fun _ => True) (· ≠ 0)) (hn : n ≠ 0) :
    TrailSpec M B (Facts s d pr c b copied synced) ((act a).orDo (giveUp q n))
      (fun _ => Facts (a.onRun s) (a.onDst d) pr c b copied synced) (Reports o conf w₀) := by
  refine attempt_spec ((actTrail_spec ha).post ?_) Facts.stable_track hq hn
  rintro ok x h rfl
  exact h

/-- A program that changes nothing but the lock file. -/
theorem lookTrail_spec (hp : p.All Call.Looks (fun _ => True) fun _ => False)
    {E : ℕ → World M B × Trail → Prop} :
    TrailSpec M B (Facts s d pr c b copied synced) p (fun _ => Facts s d pr c b copied synced)
      E := by
  refine Shell.Triple.track_keep (G := fun _ _ => True) hp Facts.stable_track ?_
  rintro ⟨i, cmd⟩ he o w w' t hw - hx
  obtain ⟨hsrc, hdst⟩ := Cmd.Looks.exec he hx
  have hrecord : Trail.record w ⟨⟨i, cmd⟩, o⟩ t = t := by
    cases cmd with
    | act a => cases a <;> first | exact he.elim | rfl
    | _ => first | exact he.elim | rfl
  have hfacts : Facts s d pr c b copied synced (w', t) := by
    refine ⟨?_, ?_, ?_, hw.blank, ?_, ?_⟩
    · exact (congrArg Source.run hsrc).trans hw.run
    · exact (congrArg Dest.run hdst).trans hw.dstRun
    · exact (congrArg (RemoteConf.priv ∘ Dest.vzconf) hdst).trans hw.vzconf
    · exact fun h => (congrArg Dest.config hdst).trans (hw.config h)
    · exact fun h => (congrArg Dest.priv hdst).trans (hw.priv h)
  rw [hrecord]
  exact hfacts

variable {v : Vars}

theorem copyConfTrail_spec (hpr : v.remote.priv = pr) :
    TrailSpec M B (Facts s d pr v.conf.priv b false false) (copyConf v)
      (fun _ => Facts s d pr v.conf.priv b true false) (Reports o conf w₀) := by
  refine Shell.Triple.bind (Q := fun _ => Facts s d pr v.conf.priv b true false) ?_ fun _ => ?_
  · refine attempt_spec ?_ Facts.stable_track (undoLock_all v.pid) (by decide)
    refine outcome_spec Facts.stable_track (fun _ => Facts.stable_track.imp _) ?_
    rintro ok w w' t hw hx hok
    obtain rfl : ok = true := hok
    obtain rfl := Option.some.inj hx
    exact ⟨hw.1, hw.2, hw.3, hw.4, fun _ => rfl, hw.6⟩
  · refine Shell.Triple.ignore (K := fun _ => Facts s d pr v.conf.priv b true false) ?_
      fun _ => Shell.Triple.ret Facts.stable_track fun _ h => h
    refine outcome_spec Facts.stable_track (fun _ => Facts.stable_track) ?_
    rintro ok w w' t hw hx
    obtain rfl := Option.some.inj hx
    cases ok with
    | false => exact ⟨hw.1, hw.2, hw.3, hw.4, hw.5, hw.6⟩
    | true =>
      refine ⟨hw.1, hw.2, hw.3, hw.4, fun _ => ?_, hw.6⟩
      have hconfig : w.dst.config =
          if t.removed then none else some (if t.pointed then pr else v.conf.priv) := hw.config rfl
      show w.dst.config.map (fun _ => v.remote.priv) = if t.removed then none else some pr
      rw [hconfig, hpr]
      cases ht : t.removed <;> rfl

theorem syncPrivateTrail_spec (top : String) :
    TrailSpec M B (Facts s d pr c b copied false) (syncPrivate v top)
      (fun _ => Facts s d pr c b copied true) (Reports o conf w₀) := by
  refine Shell.Triple.bind
    (Q := fun ret : ℕ => Facts s d pr c b copied (decide (ret = 0 ∨ ret = 24))) ?_ fun ret => ?_
  · refine outcome_spec Facts.stable_track (fun _ => Facts.stable_track) fun o w w' t hw hx => ?_
    obtain rfl := Option.some.inj hx
    by_cases hret : o.1 = 0 ∨ o.1 = 24
    · rw [if_pos hret]
      exact ⟨hw.1, hw.2, hw.3, hw.4, hw.5, fun _ => rfl⟩
    · rw [if_neg hret]
      exact ⟨hw.1, hw.2, hw.3, hw.4, hw.5, fun h => absurd (of_decide_eq_true h) hret⟩
  · refine Shell.Triple.bind (Q := fun _ => Facts s d pr c b copied true) ?_ fun _ => ?_
    · refine Shell.Triple.when (fun _ => fail_spec (giveUp_all (undoQuotaOn_below v) (by decide)))
        fun hret => ?_
      · have hok : decide (ret = 0 ∨ ret = 24) = true := by
          simp only [Bool.and_eq_false_iff, decide_eq_false_iff_not, not_not] at hret
          simp only [decide_eq_true_eq]
          exact hret.symm
        rw [hok]
        exact Shell.Triple.ret Facts.stable_track fun _ h => h
    · exact lookTrail_spec (vzfsync_looks v)

theorem ploopCopyTrail_spec (freeze : Freeze) (top : String) {E : ℕ → World M B × Trail → Prop} :
    TrailSpec M B (Facts s d pr c b copied synced) (ploopCopy freeze top)
      (fun ok x => ok = true → Facts (freeze.run s) d pr c b copied synced x) E := by
  refine ploopCopy_triple (fun _ _ => True) Facts.stable_track (fun q => ?_) ?_ ?_
    (fun _ _ _ h => by cases h) fun feedback => ?_
  · exact (lookTrail_spec (query_looks q)).post fun _ _ h => ⟨trivial, h⟩
  · refine (actTrail_spec (by trivial)).post fun ok _ h => ?_
    cases ok <;> exact h
  · refine outcome_spec Facts.stable_track (fun _ => Facts.stable_track) fun o w w' t hw hx => ?_
    obtain rfl := Option.some.inj hx
    exact hw
  · refine outcome_spec Facts.stable_track (fun _ => Facts.stable_track.imp _)
      fun o w w' t hw hx hok => ?_
    cases o with
    | ok =>
      obtain rfl := Option.some.inj hx
      exact ⟨congrArg freeze.run hw.1, hw.2, hw.3, hw.4, hw.5, hw.6⟩
    | early => cases hok
    | late => cases hok

variable {r : Run}

theorem suspendAndDumpTrail_spec (top : String) :
    TrailSpec M B (Facts r d pr c b copied synced) (suspendAndDump v top)
      (fun _ => Facts r.suspend d pr c b copied synced) (Reports o conf w₀) := by
  refine Shell.Triple.bind (Q := fun _ => Facts r.suspend d pr c b copied synced) ?_ fun _ => ?_
  · unfold suspendCt
    split_ifs
    · exact attempt_spec (ploopCopyTrail_spec .suspend top) Facts.stable_track
        (restore_below v (by decide)) (by decide)
    · exact stepTrail_spec (a := .suspend) trivial (undoSync_below v) (by decide)
  · exact (stepTrail_spec (a := .dump) trivial (undoSuspend_below v) (by decide)).bind fun _ =>
      stepTrail_spec (a := .scpDump) trivial (undoDump_below v) (by decide)

theorem stopCtTrail_spec (top : String) (hr : r = .running ∨ r = .frozen) :
    TrailSpec M B (Facts r d pr c b copied synced) (stopCt v top)
      (fun _ => Facts r.stop d pr c b copied synced) (Reports o conf w₀) := by
  unfold stopCt
  split_ifs
  · have hstop : r.stop = r.stopSkipUmount.umount := by
      rcases hr with rfl | rfl <;> rfl
    rw [hstop]
    refine (attempt_spec (ploopCopyTrail_spec .stop top) Facts.stable_track
      (restore_below v (by decide)) (by decide)).bind fun _ => ?_
    exact stepTrail_spec (a := .umount) trivial (restore_below v (by decide)) (by decide)
  · exact stepTrail_spec (a := .stop) trivial (undoSync_below v) (by decide)

theorem suspendOrStopTrail_spec (top : String) (ht : Told r v.status) :
    TrailSpec M B (Facts r d pr c b copied synced) (suspendOrStop v top)
      (fun _ => Facts (parked v r) d pr c b copied synced) (Reports o conf w₀) := by
  unfold suspendOrStop parked
  split_ifs with ho hr hm
  · exact suspendAndDumpTrail_spec top
  · exact stopCtTrail_spec top (ht.running hr)
  · simp only [Prog.when, hm, if_true]
    exact stepTrail_spec (a := .umount) trivial (undoSync_below v) (by decide)
  · simp only [Prog.when, hm]
    exact Shell.Triple.ret Facts.stable_track fun _ h => h

theorem syncPrivate2Trail_spec :
    TrailSpec M B (Facts s d pr c b copied true) (syncPrivate2 v)
      (fun _ => Facts s d pr c b copied true) (Reports o conf w₀) := by
  have hret : TrailSpec M B (Facts s d pr c b copied true) (.ret ())
      (fun _ => Facts s d pr c b copied true) (Reports o conf w₀) :=
    Shell.Triple.ret Facts.stable_track fun _ h => h
  refine Shell.Triple.when (fun _ => ?_) fun _ => hret
  refine Shell.Triple.bind (Q := fun _ => Facts s d pr c b copied true) ?_ fun ret => ?_
  · refine outcome_spec Facts.stable_track (fun _ => Facts.stable_track) fun o w w' t hw hx => ?_
    obtain rfl := Option.some.inj hx
    split_ifs
    · exact ⟨hw.1, hw.2, hw.3, hw.4, hw.5, fun _ => rfl⟩
    · exact hw
  · exact Shell.Triple.when
      (fun _ => fail_spec (giveUp_all (undoSourceStage_below v) (by decide))) fun _ => hret

theorem syncQuotaTrail_spec :
    TrailSpec M B (Facts s d pr c b copied synced) (syncQuota v)
      (fun _ => Facts s d pr c b copied synced) (Reports o conf w₀) := by
  refine Shell.Triple.when (fun _ => ?_) fun _ => Shell.Triple.ret Facts.stable_track fun _ h => h
  refine (stepTrail_spec (a := .quotaDump) trivial (undoQuotaDump_below v) (by decide)).bind
    fun _ => ?_
  refine (stepTrail_spec (a := .scpQuotaDump) trivial (undoQuotaDump_below v) (by decide)).bind
    fun _ => ?_
  exact stepTrail_spec (a := .quotaLoad) trivial (undoCopyQuota_below v) (by decide)

/-- The state of the source container at the end. -/
def sourceEnd (v : Vars) (r : Run) (t : Trail) : Run :=
  if v.opts.online then bif t.resumed then r.suspend.resume else r.suspend else parked v r

/-- The state of the copy at the end. -/
def copyEnd (v : Vars) (d : Run) : Run :=
  if v.opts.online then .running
  else if v.status.running then .running
  else if v.status.mounted then .mounted
  else d

theorem restoreOrStartTrail_spec :
    TrailSpec M B (Facts (parked v r) d pr c b copied synced) (restoreOrStart v)
      (fun _ x => Facts (sourceEnd v r x.2) (copyEnd v d) pr c b copied synced x)
      (Reports o conf w₀) := by
  unfold restoreOrStart sourceEnd copyEnd
  split_ifs with ho hr hm
  · have hp : parked v r = r.suspend := if_pos ho
    rw [hp]
    have hend : Stable (Shell.trackEnv write) fun x : World M B × Trail =>
        Facts (bif x.2.resumed then r.suspend.resume else r.suspend) .running pr c b copied synced
          x := Shell.stable_trackEnv fun t =>
      Facts.stable (s := bif t.resumed then r.suspend.resume else r.suspend) t
    refine (stepTrail_spec (a := .undump) trivial (undoCopyQuota_below v) (by decide)).bind
      fun _ => ?_
    refine (stepTrail_spec (a := .dstResume) trivial (undoUndump_below v) (by decide)).bind
      fun _ => ?_
    refine (lookTrail_spec (undoLock_looks v.pid)).bind fun _ => ?_
    refine Shell.Triple.bind (Q := fun _ x => Facts
      (bif x.2.resumed then r.suspend.resume else r.suspend) .running pr c b copied synced x)
      ?_ fun _ => ?_
    · refine Shell.Triple.ignore (K := fun _ x => Facts
        (bif x.2.resumed then r.suspend.resume else r.suspend) .running pr c b copied synced x)
        ?_ fun _ => Shell.Triple.ret hend fun _ h => h
      refine outcome_spec Facts.stable_track (fun _ => hend) fun ok w w' t hw hx => ?_
      obtain rfl := Option.some.inj hx
      have hact := Facts.act (i := .main) (a := .resumeProduction) trivial hw ok
      cases ok <;> exact hact
    · refine Shell.Triple.track_keep (G := fun _ _ => True)
        (A := fun e => e.cmd = .act .rmDump ∨ e.cmd = .act .rmDstDump) ?_ hend ?_
      · exact (ignore_all (act_all (Or.inl rfl))).bind fun _ _ =>
          ignore_all (act_all (Or.inr rfl))
      · rintro ⟨i, cmd⟩ he ok w w' t hw - hw'
        rcases he with rfl | rfl
        · obtain rfl := Option.some.inj hw'
          have hact := Facts.act (i := i) (a := .rmDump) trivial hw ok
          cases ok <;> exact hact
        · obtain rfl := Option.some.inj hw'
          have hact := Facts.act (i := i) (a := .rmDstDump) trivial hw ok
          cases ok <;> exact hact
  · exact stepTrail_spec (a := .dstStart) trivial (undoCopyQuota_below v) (by decide)
  · exact stepTrail_spec (a := .dstMount) trivial (undoCopyQuota_below v) (by decide)
  · exact Shell.Triple.when
      (fun _ => stepTrail_spec (a := .dstQuotaOff) trivial (undoCopyQuota_below v) (by decide))
      fun _ => Shell.Triple.ret Facts.stable_track fun _ h => h

/-! ### The script -/

/-- At the end, two copies and the condition are the same. -/
theorem reports_of_facts {v : Vars} {w₀ : World M B} {x : World M B × Trail}
    (ht : Told w₀.src.run v.status)
    (hx : Facts (sourceEnd v w₀.src.run x.2) (copyEnd v w₀.dst.run) w₀.dst.vzconf.priv v.conf.priv
      (decide (v.status = {})) true true x) :
    TwoCopies w₀.src.run x.1 ↔ Cloned v.opts v.conf w₀ x.2 := by
  have hconfig : x.1.dst.config = some x.1.dst.vzconf.priv ↔
      x.2.removed = false ∧ (x.2.pointed = true ∨ v.conf.priv = w₀.dst.vzconf.priv) := by
    rw [hx.config rfl, hx.vzconf]
    cases x.2.removed <;> cases x.2.pointed <;> simp
  have hstates : (x.1.dst.run = w₀.src.run ∧ x.1.src.run = w₀.src.run) ↔
      if v.opts.online then w₀.src.run = .running ∧ x.2.resumed = true
      else w₀.dst.run = w₀.src.run ∧ (w₀.src.run = .stopped ∨ x.2.blank = true) := by
    rw [hx.run, hx.dstRun, hx.blank]
    unfold sourceEnd copyEnd parked
    split_ifs with ho hr hm
    · cases w₀.src.run <;> cases x.2.resumed <;> simp [Run.suspend, Run.resume]
    · have hblank : v.status ≠ {} := fun h => by rw [h] at hr; cases hr
      rcases ht.running hr with h | h <;> simp [h, hblank, Run.stop]
    · have hblank : v.status ≠ {} := fun h => by rw [h] at hm; cases hm
      rw [ht.mounted (by simpa using hr) hm]
      simp [hblank, Run.umount]
    · have := ht.stopped (by simpa using hr) (by simpa using hm)
      simp only [decide_eq_true_eq]
      tauto
  unfold TwoCopies Cloned
  rw [hx.priv rfl, ← hstates, ← and_assoc (a := _ = false), ← hconfig]
  tauto

theorem cloneTrail_spec {v : Vars} {w₀ : World M B} (ht : Told w₀.src.run v.status)
    (hpr : v.remote.priv = w₀.dst.vzconf.priv) :
    TrailSpec M B (Facts w₀.src.run w₀.dst.run w₀.dst.vzconf.priv v.conf.priv
      (decide (v.status = {})) false false) (clone v) (fun _ _ => True)
      (Reports v.opts v.conf w₀) := by
  refine (quietTrail_spec (checkConf_all v) fun _ h => h).bind fun _ => ?_
  refine (copyConfTrail_spec hpr).bind fun _ => ?_
  refine (quietTrail_spec (prepare_all v) fun _ h h0 => absurd h0 h).bind fun _ => ?_
  refine (quietTrail_spec (compactSnapshot_all v) fun _ h h0 => absurd h0 h).bind fun _ => ?_
  refine (quietTrail_spec (getTopDelta_all v) fun _ h h0 => absurd h0 h).bind fun top => ?_
  refine (syncPrivateTrail_spec top).bind fun _ => ?_
  refine (suspendOrStopTrail_spec top ht).bind fun _ => ?_
  refine syncPrivate2Trail_spec.bind fun _ => syncQuotaTrail_spec.bind fun _ => ?_
  refine restoreOrStartTrail_spec.bind fun _ => ?_
  refine Shell.Triple.exit (Shell.stable_trackEnv fun t =>
    Facts.stable (s := sourceEnd v w₀.src.run t) t) fun x hx _ _ => reports_of_facts ht hx

theorem readConfTrail_spec {o : Options} {conf : Conf} {w₀ : World M B} (pid : ℕ) :
    TrailSpec M B (Facts s d pr c b copied false) (readConf pid)
      (fun remote x => remote.priv = pr ∧ Facts s d pr c b copied false x)
      (Reports o conf w₀) := by
  -- what is read does not end the shell, or the script exits with 1
  have hsource (f : Sourced) : TrailSpec M B (Facts s d pr c b copied false) (source f)
      (fun _ => Facts s d pr c b copied false) (Reports o conf w₀) :=
    quietTrail_spec (quiet_of_looks (source_looks f)) fun _ h h0 => absurd h0 h
  refine (hsource .vzconf).bind fun _ => (hsource .vpsconf).bind fun _ => ?_
  refine Shell.Triple.bind (Q := fun (remote : RemoteConf) x =>
    (remote.priv = pr ∨ remote.priv = "") ∧ Facts s d pr c b copied false x) ?_ fun remote => ?_
  · refine outcome_spec Facts.stable_track (fun _ => (Stable.const _).and Facts.stable_track) ?_
    intro (o : RemoteConf) w w' t hw hx
    simp only [Cmd.exec] at hx
    split_ifs at hx with ho
    obtain rfl := Option.some.inj hx
    obtain rfl := hw.vzconf
    exact ⟨ho.2.1, hw⟩
  · refine Shell.Triple.of_pure (fun _ h => h.1) fun hpr => ?_
    refine Shell.Triple.pre (P := Facts s d pr c b copied false) ?_ fun _ h => h.2
    refine (hsource .remoteConf).bind fun _ => ?_
    refine Shell.Triple.bind (Q := fun _ x => remote.priv = pr ∧ Facts s d pr c b copied false x)
      ?_ fun _ => Shell.Triple.ret ((Stable.const _).and Facts.stable_track) fun _ h => h
    refine Shell.Triple.when (fun _ => fail_spec (giveUp_all (undoLock_all pid) (by decide)))
      fun hne => ?_
    · simp only [Bool.or_eq_false_iff, decide_eq_false_iff_not] at hne
      exact Shell.Triple.ret Facts.stable_track fun x hx => ⟨hpr.resolve_right hne.2, hx⟩

theorem lockCtTrail_spec {o : Options} {conf : Conf} {w₀ : World M B} (pid : ℕ) :
    TrailSpec M B (Facts s d pr c b false false) (lockCt pid)
      (fun _ => Facts s d pr c b false false) (Reports o conf w₀) := by
  refine (Shell.Triple.track_all (G := fun _ _ => True) (lockCt_all pid) Facts.stable_track
    ?_).conseq (fun _ h => h) (fun _ _ h => h.2) fun _ _ h h0 => absurd h0 h.1
  rintro ⟨i, cmd⟩ he ok w w' t hw - hw'
  rcases he with rfl | he
  · obtain ⟨hsrc, hdst⟩ := Cmd.exec_lock hw'
    refine ⟨?_, ?_, ?_, hw.4, by simp, by simp⟩
    · exact (congrArg Source.run hsrc).trans hw.1
    · exact (congrArg Dest.run hdst).trans hw.2
    · exact (congrArg (RemoteConf.priv ∘ Dest.vzconf) hdst).trans hw.3
  · exact hw.quiet he hw'

theorem statusTrail_spec {E : ℕ → World M B × Trail → Prop} :
    TrailSpec M B (Facts s d pr c b copied synced) (run .status)
      (fun status x => Told s status ∧ Facts s d pr c (decide (status = {})) copied synced x)
      E := by
  refine outcome_spec Facts.stable_track
    (fun status : Status => (Stable.const (Told s status)).and Facts.stable_track) ?_
  intro (o : Status) w w' t hw hx
  obtain rfl := hw.run
  obtain ⟨ht, rfl⟩ := told_of_exec hx
  exact ⟨ht, hw.1, hw.2, hw.3, rfl, hw.5, hw.6⟩

variable (M B) in
/-- **The script reports success exactly if the condition is met.** -/
theorem vzcloneTrail_spec (pid : ℕ) (o : Options) (conf : Conf) (w₀ : World M B) :
    TrailSpec M B (Facts w₀.src.run w₀.dst.run w₀.dst.vzconf.priv conf.priv false false false)
      (vzclone pid o conf) (fun _ _ => True) (Reports o conf w₀) := by
  have hexit {P : World M B × Trail → Prop} {Q : Unit → World M B × Trail → Prop} {n : ℕ}
      (hn : n ≠ 0) : TrailSpec M B P (Prog.exit n) Q (Reports o conf w₀) :=
    fail_spec (A := fun _ => True) hn
  have hret : TrailSpec M B
      (Facts w₀.src.run w₀.dst.run w₀.dst.vzconf.priv conf.priv false false false) (.ret ())
      (fun _ => Facts w₀.src.run w₀.dst.run w₀.dst.vzconf.priv conf.priv false false false)
      (Reports o conf w₀) := Shell.Triple.ret Facts.stable_track fun _ h => h
  refine (Shell.Triple.orDo (lookTrail_spec (query_looks _)) hret (hexit (by decide))).bind
    fun _ => ?_
  refine (Shell.Triple.orDo (lockCtTrail_spec pid) hret (hexit (by decide))).bind fun _ => ?_
  refine statusTrail_spec.bind fun status => ?_
  refine Shell.Triple.of_pure (fun _ h => h.1) fun ht => ?_
  refine Shell.Triple.pre (P := Facts w₀.src.run w₀.dst.run w₀.dst.vzconf.priv conf.priv
    (decide (status = {})) false false) ?_ fun _ h => h.2
  refine (quietTrail_spec (checkNodes_all pid o status) fun _ h h0 => absurd h0 h).bind
    fun _ => ?_
  refine (readConfTrail_spec pid).bind fun remote => ?_
  refine Shell.Triple.of_pure (fun _ h => h.1) fun hpr => ?_
  refine Shell.Triple.pre (P := Facts w₀.src.run w₀.dst.run w₀.dst.vzconf.priv conf.priv
    (decide (status = {})) false false) ?_ fun _ h => h.2
  refine (quietTrail_spec (issue_all (E := fun _ => False) (by trivial)) fun _ h => h.elim).bind
    fun ploop => ?_
  exact cloneTrail_spec (v := ⟨pid, o, conf, status, remote, ploop⟩) ht hpr

end Spec

/-! ### Success -/

/-- The history of a run that starts with nothing done. -/
def trail (s : Script Unit × World M B) (as : List ((vzctl M B).Event ⊕ Write M B)) : Trail :=
  ((vzctl M B).machine write).track ((vzctl M B).history Trail.record) s as {}

/-- **Success means two copies exactly under the condition.** For every run that exits with success
without `--check-only`, whatever the state of the container at the start, the options, the layout of
the disk and the outcomes of the commands: there are two copies in the state at the start if and
only if the run meets the condition. -/
theorem success_iff {pid : ℕ} {o : Options} {conf : Conf} {w w' : World M B}
    {as : List ((vzctl M B).Event ⊕ Write M B)}
    (hrun : ((vzctl M B).machine write).run (vzclone pid o conf, w) as = some (.exit 0, w'))
    (ho : o.checkOnly = false) :
    TwoCopies w.src.run w' ↔ Cloned o conf w (trail (vzclone pid o conf, w) as) := by
  have hG : ((vzctl M B).machine write).Along (Shell.Triple.Given fun _ _ => True)
      (vzclone pid o conf, w) as :=
    Machine.Along.mono (G := fun _ _ => True) (fun s a _ => by cases a <;> trivial)
      (Machine.along_true _ _)
  have hstart : Facts w.src.run w.dst.run w.dst.vzconf.priv conf.priv false false false (w, {}) :=
    ⟨rfl, rfl, rfl, rfl, by simp, by simp⟩
  exact (vzcloneTrail_spec M B pid o conf w).track_run (G := fun _ _ => True) hstart hG hrun rfl ho

/-- A run without `--live` of a container that is in some state, in which nothing goes wrong. -/
def offlineRun (run : Run) : List (vzctl Unit Unit).Event × Script Unit × World Unit Unit :=
  (vzctl Unit Unit).play (fun c w => some (c.cmd.usual w)) (vzclone 1 {} { priv := "/vz/private" })
    (.start run false () fun _ => some ())

theorem offlineRun_exit (run : Run) :
    ((vzctl Unit Unit).machine write).run
      (vzclone 1 {} { priv := "/vz/private" }, .start run false () fun _ => some ())
      ((offlineRun run).1.map Sum.inl) = some (.exit 0, (offlineRun run).2.2) := by
  refine (Shell.run_play write _ _).trans ?_
  cases run <;> rfl

/-- A stopped container is copied. -/
theorem success_iff_stopped : TwoCopies .stopped (offlineRun .stopped).2.2 :=
  (success_iff (offlineRun_exit .stopped) rfl).mpr
    ⟨rfl, Or.inl rfl, rfl, Or.inl rfl⟩

/-- **A container that was running is left stopped.** Without `--live` the script stops it, starts
the copy and exits with success. -/
theorem success_fails :
    ¬ ∀ (pid : ℕ) (o : Options) (conf : Conf) (w w' : World Unit Unit)
      (as : List ((vzctl Unit Unit).Event ⊕ Write Unit Unit)),
      ((vzctl Unit Unit).machine write).run (vzclone pid o conf, w) as = some (.exit 0, w') →
      o.checkOnly = false → TwoCopies w.src.run w' := by
  intro h
  have hbad : (offlineRun .running).2.2.src.run = .running :=
    (h _ _ _ _ _ _ (offlineRun_exit .running) rfl).2.2.2
  exact absurd (show Run.stopped = .running from hbad) (by decide)

end Parikshan.CloneManager
