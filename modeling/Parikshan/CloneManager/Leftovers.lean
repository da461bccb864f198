import Parikshan.CloneManager.Artefacts
import Parikshan.CloneManager.Restore

/-!
# What a failed run leaves behind

A run that fails ought to leave nothing of the container on the destination node, and no dump on the
source node. A step that fails has to enter the chain of `undo` functions at the link for what has
been made last.

Three of them do not. The commands that make the private area enter it below the link that removes
the root directory. A live migration that fails when the process dump has been copied enters it at
the link that removes the copy of the dump, which does not lead to the one that removes the dump.
And the link that removes the private area looks on the source node for the directory behind a
symbolic link.

## Main definitions

* `DebrisSpec`: triples of the script with its debris.
* `Vars.copy`: what the chain ought to remove from the first `rsync` on.

## Main results

* `undoSyncDebris_spec`: the chain removes that, except for a directory behind a link.
* `nothing_left_iff`: a failed run leaves nothing exactly under the condition.
* `nothing_left_fails`: the root directory is left.
-/

namespace Parikshan.CloneManager

variable {M B : Type}

/-! ### Rules -/

section Spec

variable {α : Type} {p : Script α} {conf : Conf} {link : Option String} {S : List Artefact}
  {b : Artefact} {P : World M B × Debris → Prop} {E : ℕ → World M B × Debris → Prop}

variable (M B) in
/-- Triples of the script with its debris, if the commands of the `undo` functions succeed. -/
abbrev DebrisSpec (P : World M B × Debris → Prop) (p : Script α)
    (Q : α → World M B × Debris → Prop) (E : ℕ → World M B × Debris → Prop) : Prop :=
  ((vzctl M B).track Debris.record).Triple (Shell.trackEnv write) (fun x e => UndoSucceeds x.1 e)
    P p Q E

/-- A run that exits with a failure leaves nothing if and only if it has met the condition. -/
abbrev Settled (conf : Conf) (link : Option String) (n : ℕ) (x : World M B × Debris) : Prop :=
  n ≠ 0 → (Clean x ↔ Tidy conf link x.2)

theorem only_spec {Q : Unit → World M B × Debris → Prop}
    (hQ : ∀ x : World M B × Debris, Only conf link S x → Q () x) :
    DebrisSpec M B (Only conf link S) (.ret ()) Q E :=
  Shell.Triple.ret Only.stable hQ

/-- A program that changes nothing but the lock file. -/
theorem lookDebris_spec {V : α → Prop} {X : ℕ → Prop} (hp : p.All Call.Looks V X) :
    DebrisSpec M B (Only conf link S) p (fun a x => V a ∧ Only conf link S x)
      fun n x => X n ∧ Only conf link S x :=
  Shell.Triple.track_all (G := UndoSucceeds) hp Only.stable
    fun _ hc _ _ _ _ hw _ hx => hw.look hc hx

/-- A stage of such commands before there is anything. -/
theorem lookDebris_stage {V : α → Prop} {X : ℕ → Prop} (hp : p.All Call.Looks V X) :
    DebrisSpec M B (Only conf link []) p (fun _ => Only conf link []) (Settled conf link) :=
  (lookDebris_spec hp).conseq (fun _ h => h) (fun _ _ h => h.2)
    fun _ _ h _ => (h.2.mono (List.nil_subset _)).clean_iff

theorem otherDebris_spec {i : Issuer} {c : Cmd} (hc : ∀ a, c ≠ .act a) :
    DebrisSpec M B (Only conf link S) (issue i c) (fun _ => Only conf link (c.makes ++ S)) E :=
  Shell.Triple.track_issue (G := UndoSucceeds) Only.stable (fun _ => Only.stable)
    fun _ _ _ _ hw _ hx => hw.exec hc hx

theorem actDebris_spec {i : Issuer} {a : Action} (ha : a.Plain) :
    DebrisSpec M B (Only conf link S) (issue i (.act a))
      (fun (ok : Bool) => Only conf link (bif ok then a.makes ++ S else S)) E := by
  refine Shell.Triple.track_issue (G := UndoSucceeds) Only.stable (fun _ => Only.stable) ?_
  intro o w w' t hw _ hx
  obtain rfl := Option.some.inj hx
  have hact := hw.act (i := i) ha o
  cases o <;> exact hact

/-- A command that makes nothing, and whose status is not looked at. -/
theorem idleDebris_spec {i : Issuer} {a : Action} (ha : a.Plain) (hm : a.makes = []) :
    DebrisSpec M B (Only conf link S) (Prog.ignore (issue i (.act a)))
      (fun _ => Only conf link S) E := by
  refine (actDebris_spec ha).ignore fun ok => ?_
  rw [hm]
  cases ok <;> exact only_spec fun _ h => h

/-- A command of an `undo` function. -/
theorem undoDebris_spec {a : Action} {Q : World M B × Debris → Prop}
    (hP : Stable (Shell.trackEnv write) P) (hQ : Stable (Shell.trackEnv write) Q)
    (h : ∀ w t, P (w, t) → Q (a.effect w, t.record w ⟨⟨.undo, .act a⟩, true⟩)) :
    DebrisSpec M B P (undo a) (fun _ => Q) E := by
  refine Shell.Triple.ignore (K := fun _ => Q) ?_ fun _ => Shell.Triple.ret hQ fun _ h => h
  refine Shell.Triple.track_issue (G := UndoSucceeds) hP (fun _ => hQ) ?_
  intro o w w' t hw hG hx
  obtain rfl : o = true := hG rfl
  obtain rfl := Option.some.inj hx
  exact h w t hw

theorem removeDebris_spec {a : Action} (ha : a.Plain) (hb : a.removes = some b) :
    DebrisSpec M B (Only conf link (b :: S)) (undo a) (fun _ => Only conf link S) E :=
  undoDebris_spec Only.stable Only.stable fun _ _ h => h.undo ha hb

/-- An artefact that is made in some cases only. -/
def opt (q : Bool) (b : Artefact) : List Artefact := bif q then [b] else []

theorem removeOpt_spec {q : Bool} {a : Action} (ha : a.Plain) (hb : a.removes = some b) :
    DebrisSpec M B (Only conf link (opt q b ++ S)) (Prog.when q (undo a))
      (fun _ => Only conf link S) E := by
  cases q with
  | true => exact removeDebris_spec ha hb
  | false => exact only_spec fun _ h => h

/-- Giving up at the end of the chain. -/
theorem giveUpDebris_spec {q : Script Unit} {n : ℕ} {Q : Unit → World M B × Debris → Prop}
    (hq : DebrisSpec M B P q (fun _ => Only conf link (lost conf link)) (Settled conf link)) :
    DebrisSpec M B P (giveUp q n) Q (Settled conf link) :=
  hq.bind fun _ => Shell.Triple.exit Only.stable fun _ h _ => h.clean_iff

/-- A command of the main part that must succeed. -/
theorem attemptDebris_spec {a : Action} (ha : a.Plain) {q : Script Unit} {n : ℕ}
    (hq : DebrisSpec M B (Only conf link S) q (fun _ => Only conf link (lost conf link))
      (Settled conf link)) :
    DebrisSpec M B (Only conf link S) ((act a).orDo (giveUp q n))
      (fun _ => Only conf link (a.makes ++ S)) (Settled conf link) :=
  (actDebris_spec ha).orDo (only_spec fun _ h => h) (giveUpDebris_spec hq)

/-- The same, where it is needed that a success leaves something. -/
theorem attemptThere_spec {a : Action} (ha : a.Plain)
    (hb : ∀ (w : World M B) t, ¬ Gone (a.effect w, Debris.record w ⟨⟨.main, .act a⟩, true⟩ t) b)
    {q : Script Unit} {n : ℕ}
    (hq : DebrisSpec M B (Only conf link S) q (fun _ => Only conf link (lost conf link))
      (Settled conf link)) :
    DebrisSpec M B (Only conf link S) ((act a).orDo (giveUp q n))
      (fun _ x => Only conf link (a.makes ++ S) x ∧ ¬ Gone x b) (Settled conf link) := by
  refine Shell.Triple.orDo (K := fun (ok : Bool) x =>
    Only conf link (bif ok then a.makes ++ S else S) x ∧ (ok = true → ¬ Gone x b)) ?_ ?_ ?_
  · refine Shell.Triple.track_issue (G := UndoSucceeds) Only.stable
      (fun _ => Only.stable.and (not_gone_stable.imp _)) ?_
    intro o w w' t hw _ hx
    obtain rfl := Option.some.inj hx
    have hact := hw.act (i := .main) ha o
    cases o with
    | true => exact ⟨hact, fun _ => hb w t⟩
    | false => exact ⟨hact, fun h => by cases h⟩
  · exact Shell.Triple.ret (Only.stable.and (not_gone_stable.imp _)) fun _ h => ⟨h.1, h.2 rfl⟩
  · exact (giveUpDebris_spec hq).conseq (fun _ h => h.1) (fun _ _ h => h) fun _ _ h => h

/-! ### The chain of `undo` functions -/

variable (v : Vars)

/-- What `undo_act_scripts` removes, and what else there is. -/
def Vars.scripts (S : List Artefact) : List Artefact :=
  opt v.conf.actScripts .actScripts ++ .config :: S

/-- The same of `undo_dump_file`. -/
def Vars.files (S : List Artefact) : List Artefact :=
  opt v.status.suspended .dumpFile ++ v.scripts S

/-- What `undo_private` ought to remove. -/
def Vars.area : List Artefact := .priv :: .target :: v.files []

/-- What `undo_root` ought to remove. -/
def Vars.dirs : List Artefact := .root :: v.area

/-- What `undo_quota_init` ought to remove. -/
def Vars.quota : List Artefact := opt v.diskQuota .quotaInit ++ v.dirs

/-- What `undo_sync` ought to remove. -/
def Vars.copy : List Artefact := opt v.diskQuota .quotaOn ++ v.quota

theorem Vars.area_subset_copy : v.area ⊆ v.copy :=
  List.subset_append_of_subset_right _
    (List.subset_append_of_subset_right _ (List.subset_cons_self ..))

theorem Vars.lost_subset_copy : lost conf link ⊆ v.copy := by
  refine List.Subset.trans ?_ v.area_subset_copy
  unfold lost
  split_ifs <;> simp [Vars.area]

theorem undoConfDebris_spec :
    DebrisSpec M B (Only conf link (.config :: S)) (undoConf v) (fun _ => Only conf link S) E := by
  refine Shell.Triple.bind (idleDebris_spec (a := .setName) trivial rfl) fun _ => ?_
  refine Shell.Triple.bind (removeDebris_spec (a := .rmConf) trivial rfl) fun _ => ?_
  exact (lookDebris_spec (undoLock_looks (E := fun _ => False) v.pid)).conseq (fun _ h => h)
    (fun _ _ h => h.2) fun _ _ h => h.1.elim

theorem undoActScriptsDebris_spec :
    DebrisSpec M B (Only conf link (v.scripts S)) (undoActScripts v)
      (fun _ => Only conf link S) E :=
  Shell.Triple.bind (removeOpt_spec (a := .rmActScripts) trivial rfl) fun _ =>
    undoConfDebris_spec v

theorem undoDumpFileDebris_spec :
    DebrisSpec M B (Only conf link (v.files S)) (undoDumpFile v) (fun _ => Only conf link S) E :=
  Shell.Triple.bind (removeOpt_spec (a := .rmDumpFile) trivial rfl) fun _ =>
    undoActScriptsDebris_spec v

theorem Vars.files_append (S : List Artefact) : v.files S = v.files [] ++ S := by
  simp [Vars.files, Vars.scripts]

variable {v}

/-! ### What stays -/

/-- A program that does not remove what stays may exit anywhere. -/
theorem leftDebris_spec {V : α → Prop} {X : ℕ → Prop} (hb : b = .root ∨ b = .srcDump)
    (hp : p.All (Call.Spares b) V X) :
    DebrisSpec M B (Left b) p (fun a x => V a ∧ Left b x) (Settled conf link) :=
  (Shell.Triple.track_all (G := UndoSucceeds) hp Left.stable
    fun _ hc _ _ _ _ hw _ hx => hw.exec hb hc hx).conseq (fun _ h => h) (fun _ _ h => h)
    fun _ _ h _ => h.2.clean_iff

theorem spares_root {c : Call} (h : c.Below 4) : c.Spares .root := by
  obtain ⟨i, c⟩ := c
  rintro a rfl hremoves
  have hlink : a.link ≤ 4 := h
  cases a <;> first | exact absurd hlink (by decide) | cases hremoves

theorem spares_srcDump {c : Call} (h : c.Below 12) : c.Spares .srcDump := by
  obtain ⟨i, c⟩ := c
  rintro a rfl hremoves
  have hlink : a.link ≤ 12 := h
  cases a <;> first | exact absurd hlink (by decide) | cases hremoves

/-- A command of the main part after the process dump has been copied. -/
theorem leftStep_spec {a : Action} (ha : a.removes ≠ some .srcDump) {q : Script Unit} {n k : ℕ}
    (hq : q.All (Call.Below k) (fun _ => True) fun _ => True) (hkm : k ≤ 12) :
    DebrisSpec M B (Left .srcDump) ((act a).orDo (giveUp q n)) (fun _ => Left .srcDump)
      (Settled conf link) := by
  have hact : (act a).All (Call.Spares .srcDump) (fun _ => True) fun _ => True :=
    act_all fun a' h => by cases h; exact ha
  have hspares : q.All (Call.Spares .srcDump) (fun _ => True) fun _ => True :=
    hq.mono (fun _ hc => spares_srcDump (hc.mono hkm)) (fun _ h => h) fun _ h => h
  exact (leftDebris_spec (Or.inr rfl) (orDo_giveUp_all hact hspares trivial)).conseq
    (fun _ h => h) (fun _ _ h => h.2) fun _ _ h => h

theorem leftSync_spec :
    DebrisSpec M B (Left .srcDump) (syncPrivate2 v) (fun _ => Left .srcDump)
      (Settled conf link) := by
  have hsync : (syncPrivate2 v).All (Call.Spares .srcDump) (fun _ => True) fun _ => True := by
    refine when_all ((issue_all fun a h => by cases h).bind fun ret _ => when_all ?_)
    exact giveUp_all ((undoSourceStage_below v).mono
      (fun _ hc => spares_srcDump (hc.mono (by omega))) (fun _ h => h) fun _ h => h) trivial
  exact (leftDebris_spec (Or.inr rfl) hsync).conseq (fun _ h => h) (fun _ _ h => h.2)
    fun _ _ h => h

theorem leftQuota_spec :
    DebrisSpec M B (Left .srcDump) (syncQuota v) (fun _ => Left .srcDump) (Settled conf link) := by
  refine Shell.Triple.when (fun _ => ?_) fun _ => Shell.Triple.ret Left.stable fun _ h => h
  refine (leftStep_spec (by decide) (undoQuotaDump_below v) (by omega)).bind fun _ => ?_
  refine (leftStep_spec (by decide) (undoQuotaDump_below v) (by omega)).bind fun _ => ?_
  exact leftStep_spec (by decide) (undoCopyQuota_below v) (by omega)

theorem leftRestore_spec (ho : v.opts.online = true) :
    DebrisSpec M B (Left .srcDump) (restoreOrStart v) (fun _ _ => True) (Settled conf link) := by
  unfold restoreOrStart
  rw [if_pos ho]
  refine (leftStep_spec (by decide) (undoCopyQuota_below v) (by omega)).bind fun _ => ?_
  refine (leftStep_spec (by decide) (undoUndump_below v) (by omega)).bind fun _ => ?_
  exact (Shell.Triple.of_all (I := fun _ => True) (afterResume_all v) (Stable.const True)
    fun _ _ _ _ _ _ _ _ => trivial).conseq (fun _ _ => trivial) (fun _ _ _ => trivial)
    fun _ _ h => h.1.elim

/-! ### Commands of the main part -/

/-- A step that is done in some cases only. -/
theorem whenDebris_spec {q : Bool} {p : Script Unit}
    (hp : DebrisSpec M B (Only conf link S) p (fun _ => Only conf link (b :: S)) E) :
    DebrisSpec M B (Only conf link S) (Prog.when q p) (fun _ => Only conf link (opt q b ++ S))
      E := by
  cases q with
  | true => exact hp
  | false => exact only_spec fun _ h => h

/-- A command that makes the private area. If it fails the chain is entered below the link that
removes the root directory. -/
theorem mkdirDebris_spec {a : Action} {n : ℕ} (ha : a.removes ≠ some .root)
    (hok : ∀ (w : World M B) t, Only conf link v.dirs (w, t) →
      Only conf link v.dirs (a.effect w, t.record w ⟨⟨.main, .act a⟩, true⟩))
    (hfail : ∀ (w : World M B) t, (Debris.record w ⟨⟨.main, .act a⟩, false⟩ t).failed = true) :
    DebrisSpec M B (fun x => Only conf link v.dirs x ∧ ¬ Gone x .root)
      ((act a).orDo (giveUp (undoPrivate v) n))
      (fun _ x => Only conf link v.dirs x ∧ ¬ Gone x .root) (Settled conf link) := by
  have hspares : (undoPrivate v).All (Call.Spares .root) (fun _ => True) fun _ => True :=
    (undoPrivate_below v).mono (fun _ hc => spares_root hc) (fun _ h => h) fun _ h => h
  refine Shell.Triple.orDo (K := fun (ok : Bool) x =>
    if ok then Only conf link v.dirs x ∧ ¬ Gone x .root else Left .root x) ?_ ?_ ?_
  · refine Shell.Triple.track_issue (G := UndoSucceeds) (Only.stable.and not_gone_stable) ?_ ?_
    · intro ok
      cases ok
      · exact Left.stable
      · exact Only.stable.and not_gone_stable
    · rintro o w w' t ⟨hw, hthere⟩ _ hx
      obtain rfl := Option.some.inj hx
      have hstays := not_gone_act (i := .main) (Or.inl rfl) ha hthere o
      cases o with
      | true => exact ⟨hok w t hw, hstays⟩
      | false => exact ⟨hstays, Or.inl (hfail w t)⟩
  · exact Shell.Triple.ret (Only.stable.and not_gone_stable) fun _ h => h
  · exact (leftDebris_spec (Or.inl rfl) (giveUp_all (Q := fun _ => False) hspares trivial)).conseq
      (fun _ h => h) (fun _ _ h => h.1.elim) fun _ _ h => h

/-- An `rsync` of the private area. -/
theorem rsyncDebris_spec {c : Cmd} (hc : (∃ exclude, c = .rsync1 exclude) ∨ c = .rsync2) :
    DebrisSpec M B (Only v.conf link v.copy) (run c) (fun _ => Only v.conf link v.copy) E := by
  have hmakes : c.makes = [.priv] := by rcases hc with ⟨exclude, rfl⟩ | rfl <;> rfl
  have hpriv : .priv ∈ v.copy := v.area_subset_copy (by simp [Vars.area])
  refine (otherDebris_spec (c := c) ?_).conseq (fun _ h => h) (fun _ _ h => h.mono ?_)
    fun _ _ h => h
  · rintro a rfl
    rcases hc with ⟨exclude, hc⟩ | hc <;> cases hc
  · simpa [hmakes] using hpriv

/-- A command of the main part between the two copies. -/
theorem stepDebris_spec {a : Action} (ha : a.Plain) (hm : a.makes = []) {q : Script Unit} {n : ℕ}
    (hq : DebrisSpec M B (Only v.conf link v.copy) q (fun _ => Only v.conf link (lost v.conf link))
      (Settled v.conf link)) :
    DebrisSpec M B (Only v.conf link v.copy) ((act a).orDo (giveUp q n))
      (fun _ => Only v.conf link v.copy) (Settled v.conf link) := by
  have hattempt := attemptDebris_spec (n := n) ha hq
  rw [hm] at hattempt
  exact hattempt

theorem copyConfDebris_spec :
    DebrisSpec M B (Only conf link []) (copyConf v) (fun _ => Only conf link [.config])
      (Settled conf link) := by
  refine Shell.Triple.bind (attemptDebris_spec (a := .scpConf v.conf.priv) trivial ?_) fun _ =>
    idleDebris_spec (a := .setPaths v.remote.priv) trivial rfl
  exact (lookDebris_stage (undoLock_looks (E := fun _ => True) v.pid)).conseq (fun _ h => h)
    (fun _ _ h => h.mono (List.nil_subset _)) fun _ _ h => h

theorem ploopCopyDebris_spec (freeze : Freeze) (top : String) :
    DebrisSpec M B (Only conf link S) (ploopCopy freeze top) (fun _ => Only conf link S) E := by
  refine ploopCopy_triple (fun _ _ => True) Only.stable (fun q => ?_) ?_ ?_ (fun _ _ h => h)
    fun feedback => ?_
  · exact (lookDebris_spec (query_looks (E := fun _ => False) q)).conseq (fun _ h => h)
      (fun _ _ h => h) fun _ _ h => h.1.elim
  · refine (actDebris_spec (a := .rmDelta top) trivial).conseq (fun _ h => h) (fun ok _ h => ?_)
      fun _ _ h => h
    cases ok <;> exact h
  · exact otherDebris_spec (c := .ploopFeedback) fun _ h => by cases h
  · exact otherDebris_spec (c := .ploopCopy feedback freeze top) fun _ h => by cases h

/-! ### Without `--keep-dst` -/

variable (hk : v.opts.keepDst = false)

include hk

/-- **The private area.** What is behind a link stays unless there is the same link on the source
node. -/
theorem undoPrivateDebris_spec :
    DebrisSpec M B (Only conf link v.area) (undoPrivate v)
      (fun _ => Only conf link (lost conf link)) E := by
  refine Shell.Triple.bind (Q := fun _ => Only conf link (v.files (lost conf link))) ?_ fun _ =>
    undoDumpFileDebris_spec v
  rw [hk]
  refine Shell.Triple.bind (Q := fun (o : Option String) x => o = link ∧ Only conf link v.area x)
    ?_ fun o => Shell.Triple.of_pure (fun _ h => h.1) fun ho => ?_
  · refine Shell.Triple.track_issue (G := UndoSucceeds) Only.stable
      (fun _ => (Stable.const _).and Only.stable) ?_
    intro (o : Option String) w w' t hw _ hx
    simp only [vzctl, Cmd.exec] at hx
    split_ifs at hx with ho
    obtain rfl := Option.some.inj hx
    exact ⟨ho.trans hw.source, hw⟩
  · refine Shell.Triple.conseq (P := Only conf link v.area) ?_ (fun _ h => h.2) (fun _ _ h => h)
      fun _ _ h => h
    have hmono : lost conf link ++ v.files [] ⊆ v.files (lost conf link) := by
      rw [v.files_append (lost conf link)]
      exact List.append_subset.mpr ⟨List.subset_append_right .., List.subset_append_left ..⟩
    cases o with
    | some dir =>
      exact undoDebris_spec Only.stable Only.stable fun _ _ h => (h.unlink ho.symm).mono hmono
    | none =>
      have hlost : lost conf link = [.target] := by simp [lost, ← ho]
      rw [hlost] at hmono ⊢
      exact (removeDebris_spec (a := .rmPrivate) trivial rfl).conseq (fun _ h => h)
        (fun _ _ h => h.mono hmono) fun _ _ h => h

theorem undoRootDebris_spec :
    DebrisSpec M B (Only conf link v.dirs) (undoRoot v) (fun _ => Only conf link (lost conf link))
      E :=
  Shell.Triple.bind (removeDebris_spec (a := .rmRoot) trivial rfl) fun _ =>
    undoPrivateDebris_spec hk

theorem undoQuotaInitDebris_spec :
    DebrisSpec M B (Only conf link v.quota) (undoQuotaInit v)
      (fun _ => Only conf link (lost conf link)) E :=
  Shell.Triple.bind (removeOpt_spec (a := .quotaDrop) trivial rfl) fun _ => undoRootDebris_spec hk

theorem undoSyncDebris_spec :
    DebrisSpec M B (Only conf link v.copy) (undoSync v)
      (fun _ => Only conf link (lost conf link)) E :=
  Shell.Triple.bind (removeOpt_spec (a := .quotaOff) trivial rfl) fun _ =>
    undoQuotaInitDebris_spec hk

theorem undoSuspendDebris_spec :
    DebrisSpec M B (Only conf link v.copy) (undoSuspend v)
      (fun _ => Only conf link (lost conf link)) E :=
  Shell.Triple.bind (idleDebris_spec (a := .resume) trivial rfl) fun _ => undoSyncDebris_spec hk

theorem undoDumpDebris_spec :
    DebrisSpec M B (Only conf link (.srcDump :: v.copy)) (undoDump v)
      (fun _ => Only conf link (lost conf link)) E :=
  Shell.Triple.bind (removeDebris_spec (a := .rmDump) trivial rfl) fun _ =>
    undoSuspendDebris_spec hk

/-- Without `--live`. -/
theorem undoSourceStageDebris_spec (ho : v.opts.online = false) :
    DebrisSpec M B (Only conf link v.copy) (undoSourceStage v)
      (fun _ => Only conf link (lost conf link)) E := by
  have hidle {q : Bool} {a : Action} (ha : a.Plain) (hm : a.makes = []) :
      DebrisSpec M B (Only conf link v.copy) (Prog.when q (undo a))
        (fun _ => Only conf link v.copy) E :=
    Shell.Triple.when (fun _ => idleDebris_spec ha hm) fun _ => only_spec fun _ h => h
  rw [undoSourceStage, ho]
  refine Shell.Triple.bind (hidle (a := .start) trivial rfl) fun _ => ?_
  exact Shell.Triple.bind (hidle (a := .mount) trivial rfl) fun _ => undoSyncDebris_spec hk

theorem undoQuotaDumpDebris_spec (ho : v.opts.online = false) :
    DebrisSpec M B (Only conf link (.srcQuotaDump :: v.copy)) (undoQuotaDump v)
      (fun _ => Only conf link (lost conf link)) E :=
  Shell.Triple.bind (removeDebris_spec (a := .rmQuotaDump) trivial rfl) fun _ =>
    undoSourceStageDebris_spec hk ho

theorem undoCopyQuotaDebris_spec (ho : v.opts.online = false) :
    DebrisSpec M B (Only conf link (.quotaDump :: .srcQuotaDump :: v.copy)) (undoCopyQuota v)
      (fun _ => Only conf link (lost conf link)) E :=
  Shell.Triple.bind (removeDebris_spec (a := .rmDstQuotaDump) trivial rfl) fun _ =>
    undoQuotaDumpDebris_spec hk ho

/-! ### The stages -/

theorem prepareDebris_spec :
    DebrisSpec M B (Only v.conf link [.config]) (prepare v) (fun _ => Only v.conf link v.copy)
      (Settled v.conf link) := by
  have hlost {S : List Artefact} {q : Script Unit}
      (hq : ∀ {E}, DebrisSpec M B (Only v.conf link S) q (fun _ => Only v.conf link []) E) :
      DebrisSpec M B (Only v.conf link S) q (fun _ => Only v.conf link (lost v.conf link))
        (Settled v.conf link) :=
    hq.conseq (fun _ h => h) (fun _ _ h => h.mono (List.nil_subset _)) fun _ _ h => h
  have hpriv : [.priv, .target] ++ v.dirs ⊆ v.dirs := by simp [Vars.dirs, Vars.area]
  refine Shell.Triple.bind (otherDebris_spec (c := .applyConfig) fun _ h => by cases h)
    fun (ret : ℕ) => ?_
  refine Shell.Triple.bind (Q := fun _ => Only v.conf link [.config]) ?_ fun _ => ?_
  · exact Shell.Triple.when (fun _ => giveUpDebris_spec (hlost (undoConfDebris_spec v)))
      fun _ => only_spec fun _ h => h
  refine Shell.Triple.bind (Q := fun _ => Only v.conf link (v.scripts [])) ?_ fun _ => ?_
  · exact whenDebris_spec (attemptDebris_spec (a := .scpActScripts) trivial
      (hlost (undoConfDebris_spec v)))
  refine Shell.Triple.bind (Q := fun _ => Only v.conf link (v.files [])) ?_ fun _ => ?_
  · exact whenDebris_spec (attemptDebris_spec (a := .scpDumpFile) trivial
      (hlost (undoActScriptsDebris_spec v)))
  refine Shell.Triple.bind (Q := fun _ x => Only v.conf link v.dirs x ∧ ¬ Gone x .root) ?_
    fun _ => ?_
  · refine (attemptThere_spec (a := .mkdirRoot) (b := .root) trivial
      (fun _ _ => Bool.false_ne_true.symm) (hlost (undoDumpFileDebris_spec v))).conseq
      (fun _ h => h) (fun _ x h => ?_) fun _ _ h => h
    exact ⟨h.1.mono (List.cons_subset_cons _ (List.subset_append_right [_, _] _)), h.2⟩
  refine Shell.Triple.bind (Q := fun _ x => Only v.conf link v.dirs x ∧ ¬ Gone x .root) ?_
    fun _ => ?_
  · refine Shell.Triple.when (fun _ => ?_) fun _ =>
      Shell.Triple.ret (Only.stable.and not_gone_stable) fun _ h => h
    exact mkdirDebris_spec (by simp [Action.removes]) (fun w t h => h.mkdirTarget.mono hpriv)
      fun _ _ => rfl
  refine Shell.Triple.bind (Q := fun _ => Only v.conf link v.dirs) ?_ fun _ => ?_
  · refine (mkdirDebris_spec (by decide) (fun w t h => h.mkdir.mono ?_) fun _ _ => rfl).conseq
      (fun _ h => h) (fun _ _ h => h.1) fun _ _ h => h
    simp [Vars.dirs, Vars.area]
  refine Shell.Triple.when (fun hq => ?_) fun hq => only_spec fun _ h => ?_
  · have hquota : v.quota = .quotaInit :: v.dirs := by simp [Vars.quota, opt, hq]
    have hcopy : v.copy = .quotaOn :: v.quota := by simp [Vars.copy, opt, hq]
    refine Shell.Triple.bind (Q := fun _ => Only v.conf link v.quota) ?_ fun _ => ?_
    · rw [hquota]
      exact attemptDebris_spec (a := .quotaInit) trivial (undoRootDebris_spec hk)
    · rw [hcopy]
      exact attemptDebris_spec (a := .quotaOn) trivial (undoQuotaInitDebris_spec hk)
  · simpa [Vars.copy, Vars.quota, opt, hq] using h

/-- With a `ploop` image there is no quota. -/
theorem undoRootDebris_ploop (hp : v.ploop = true) :
    DebrisSpec M B (Only v.conf link v.copy) (undoRoot v)
      (fun _ => Only v.conf link (lost v.conf link)) E := by
  have hq : v.diskQuota = false := by simp [Vars.diskQuota, hp]
  have hcopy : v.copy = v.dirs := by simp [Vars.copy, Vars.quota, opt, hq]
  rw [hcopy]
  exact undoRootDebris_spec hk

/-- The script goes on when it has undone everything. -/
theorem compactSnapshotDebris_spec :
    DebrisSpec M B (Only v.conf link v.copy) (compactSnapshot v)
      (fun _ => Only v.conf link v.copy) (Settled v.conf link) := by
  have hstep {q : Bool} {p : Script Bool} (hp : q = true → v.ploop = true)
      (hc : DebrisSpec M B (Only v.conf link v.copy) p (fun _ => Only v.conf link v.copy)
        (Settled v.conf link)) :
      DebrisSpec M B (Only v.conf link v.copy) (Prog.when q (Prog.orDo p (undoRoot v)))
        (fun _ => Only v.conf link v.copy) (Settled v.conf link) := by
    refine Shell.Triple.when (fun hq => ?_) fun _ => only_spec fun _ h => h
    refine hc.orDo (only_spec fun _ h => h) ?_
    refine (undoRootDebris_ploop hk (hp hq)).conseq (fun _ h => h) (fun _ _ h => h.mono ?_)
      fun _ _ h => h
    exact v.lost_subset_copy
  refine Shell.Triple.bind (hstep (fun h => (Bool.and_eq_true_iff.mp h).2) ?_) fun _ =>
    hstep (fun h => (Bool.and_eq_true_iff.mp h).2) ?_
  · exact otherDebris_spec (c := .compact) fun _ h => by cases h
  · exact otherDebris_spec (c := .snapshot) fun _ h => by cases h

theorem getTopDeltaDebris_spec :
    DebrisSpec M B (Only v.conf link v.copy) (getTopDelta v)
      (fun _ => Only v.conf link v.copy) (Settled v.conf link) := by
  unfold getTopDelta
  split_ifs with h
  · refine Shell.Triple.bind (otherDebris_spec (c := .ploopInfo) fun _ h => by cases h) ?_
    intro (info : Option String)
    cases info with
    | some top => exact Shell.Triple.ret Only.stable fun _ h => h
    | none =>
      refine (undoRootDebris_ploop hk ?_).bind fun _ =>
        Shell.Triple.exit Only.stable fun _ h _ => h.clean_iff
      simp_all
  · exact Shell.Triple.ret Only.stable fun _ h => h

theorem syncPrivateDebris_spec (top : String) :
    DebrisSpec M B (Only v.conf link v.copy) (syncPrivate v top)
      (fun _ => Only v.conf link v.copy) (Settled v.conf link) := by
  refine Shell.Triple.bind (rsyncDebris_spec (Or.inl ⟨_, rfl⟩)) fun (ret : ℕ) => ?_
  refine Shell.Triple.bind (Q := fun _ => Only v.conf link v.copy) ?_ fun _ => ?_
  · exact Shell.Triple.when (fun _ => giveUpDebris_spec (undoSyncDebris_spec hk)) fun _ =>
      only_spec fun _ h => h
  · exact (lookDebris_spec (vzfsync_looks (E := fun _ => False) v)).conseq (fun _ h => h)
      (fun _ _ h => h.2) fun _ _ h => h.1.elim

/-- Where the main part itself restores the container. -/
theorem restoreDebris_spec {a : Action} (ha : a.Plain) (hm : a.makes = []) :
    DebrisSpec M B (Only v.conf link v.copy) (restore a >>= fun _ => undoSync v)
      (fun _ => Only v.conf link (lost v.conf link)) E :=
  Shell.Triple.bind (idleDebris_spec ha hm) fun _ => undoSyncDebris_spec hk

/-- **The process dump.** Once it has been copied, the one on the source node stays. -/
theorem suspendAndDumpDebris_spec (top : String) :
    DebrisSpec M B (Only v.conf link v.copy) (suspendAndDump v top) (fun _ => Left .srcDump)
      (Settled v.conf link) := by
  refine Shell.Triple.bind (Q := fun _ => Only v.conf link v.copy) ?_ fun _ => ?_
  · unfold suspendCt
    split_ifs
    · exact (ploopCopyDebris_spec .suspend top).orDo (only_spec fun _ h => h)
        (giveUpDebris_spec (restoreDebris_spec hk (a := .resume) trivial rfl))
    · exact stepDebris_spec (a := .suspend) trivial rfl (undoSyncDebris_spec hk)
  refine Shell.Triple.bind (attemptThere_spec (a := .dump) (b := .srcDump) trivial
    (fun _ _ => Bool.false_ne_true.symm) (undoSuspendDebris_spec hk)) fun _ => ?_
  refine Shell.Triple.orDo (K := fun (ok : Bool) x =>
    if ok then Left .srcDump x else Only v.conf link (.srcDump :: v.copy) x) ?_ ?_ ?_
  · refine Shell.Triple.track_issue (G := UndoSucceeds) (Only.stable.and not_gone_stable) ?_ ?_
    · intro ok
      cases ok
      · exact Only.stable
      · exact Left.stable
    · rintro o w w' t ⟨hw, hthere⟩ _ hx
      obtain rfl := Option.some.inj hx
      cases o with
      | true => exact ⟨hthere, Or.inr rfl⟩
      | false => exact hw
  · exact Shell.Triple.ret Left.stable fun _ h => h
  · exact giveUpDebris_spec (undoDumpDebris_spec hk)

theorem stopCtDebris_spec (top : String) :
    DebrisSpec M B (Only v.conf link v.copy) (stopCt v top) (fun _ => Only v.conf link v.copy)
      (Settled v.conf link) := by
  unfold stopCt
  split_ifs
  · refine Shell.Triple.bind (Q := fun _ => Only v.conf link v.copy) ?_ fun _ => ?_
    · exact (ploopCopyDebris_spec .stop top).orDo (only_spec fun _ h => h)
        (giveUpDebris_spec (restoreDebris_spec hk (a := .start) trivial rfl))
    · exact stepDebris_spec (a := .umount) trivial rfl
        (restoreDebris_spec hk (a := .start) trivial rfl)
  · exact stepDebris_spec (a := .stop) trivial rfl (undoSyncDebris_spec hk)

/-- The last copy, without `--live`. -/
theorem offlineDebris_spec (ho : v.opts.online = false) (top : String) :
    DebrisSpec M B (Only v.conf link v.copy) (suspendOrStop v top)
      (fun _ => Only v.conf link v.copy) (Settled v.conf link) := by
  unfold suspendOrStop
  rw [ho, if_neg Bool.false_ne_true]
  split_ifs
  · exact stopCtDebris_spec hk top
  · exact Shell.Triple.when
      (fun _ => stepDebris_spec (a := .umount) trivial rfl (undoSyncDebris_spec hk))
      fun _ => only_spec fun _ h => h

theorem syncPrivate2Debris_spec (ho : v.opts.online = false) :
    DebrisSpec M B (Only v.conf link v.copy) (syncPrivate2 v) (fun _ => Only v.conf link v.copy)
      (Settled v.conf link) := by
  refine Shell.Triple.when (fun _ => ?_) fun _ => only_spec fun _ h => h
  refine Shell.Triple.bind (rsyncDebris_spec (Or.inr rfl)) fun (ret : ℕ) => ?_
  exact Shell.Triple.when (fun _ => giveUpDebris_spec (undoSourceStageDebris_spec hk ho))
    fun _ => only_spec fun _ h => h

theorem syncQuotaDebris_spec (ho : v.opts.online = false) :
    DebrisSpec M B (Only v.conf link v.copy) (syncQuota v)
      (fun _ => Only v.conf link (.quotaDump :: .srcQuotaDump :: v.copy))
      (Settled v.conf link) := by
  refine Shell.Triple.when (fun _ => ?_) fun _ => only_spec fun _ h =>
    h.mono (List.subset_append_right [_, _] _)
  refine Shell.Triple.bind (attemptDebris_spec (a := .quotaDump) trivial ?_) fun _ => ?_
  · refine (undoQuotaDumpDebris_spec hk ho).conseq (fun _ h => h.mono (List.subset_cons_self ..))
      (fun _ _ h => h) fun _ _ h => h
  refine Shell.Triple.bind (attemptDebris_spec (a := .scpQuotaDump) trivial
    (undoQuotaDumpDebris_spec hk ho)) fun _ => ?_
  exact attemptDebris_spec (a := .quotaLoad) trivial (undoCopyQuotaDebris_spec hk ho)

theorem startDebris_spec (ho : v.opts.online = false) :
    DebrisSpec M B (Only v.conf link (.quotaDump :: .srcQuotaDump :: v.copy)) (restoreOrStart v)
      (fun _ _ => True) (Settled v.conf link) := by
  have hstep {a : Action} {n : ℕ} (ha : a.Plain) :
      DebrisSpec M B (Only v.conf link (.quotaDump :: .srcQuotaDump :: v.copy))
        ((act a).orDo (giveUp (undoCopyQuota v) n)) (fun _ _ => True) (Settled v.conf link) :=
    (attemptDebris_spec ha (undoCopyQuotaDebris_spec hk ho)).conseq (fun _ h => h)
      (fun _ _ _ => trivial) fun _ _ h => h
  unfold restoreOrStart
  rw [ho, if_neg Bool.false_ne_true]
  split_ifs
  · exact hstep trivial
  · exact hstep trivial
  · exact Shell.Triple.when (fun _ => hstep trivial) fun _ => only_spec fun _ _ => trivial

theorem cloneDebris_spec :
    DebrisSpec M B (Only v.conf link []) (clone v) (fun _ _ => True) (Settled v.conf link) := by
  have hexit : DebrisSpec M B (fun _ => True) (Prog.exit 0 : Script Unit) (fun _ _ => True)
      (Settled v.conf link) := Shell.Triple.exit (Stable.const True) fun _ _ h => absurd rfl h
  refine (lookDebris_stage (checkConf_looks v)).bind fun _ => ?_
  refine copyConfDebris_spec.bind fun _ => (prepareDebris_spec hk).bind fun _ => ?_
  refine (compactSnapshotDebris_spec hk).bind fun _ => (getTopDeltaDebris_spec hk).bind
    fun top => ?_
  refine (syncPrivateDebris_spec hk top).bind fun _ => ?_
  cases ho : v.opts.online with
  | true =>
    unfold suspendOrStop
    rw [if_pos ho]
    refine (suspendAndDumpDebris_spec hk top).bind fun _ => ?_
    refine leftSync_spec.bind fun _ => leftQuota_spec.bind fun _ => ?_
    exact (leftRestore_spec ho).bind fun _ => hexit
  | false =>
    refine (offlineDebris_spec hk ho top).bind fun _ => ?_
    refine (syncPrivate2Debris_spec hk ho).bind fun _ => (syncQuotaDebris_spec hk ho).bind
      fun _ => ?_
    exact (startDebris_spec hk ho).bind fun _ => hexit

end Spec

variable (M B) in
/-- **A failed run leaves nothing exactly under the condition.** -/
theorem vzcloneDebris_spec (pid : ℕ) (o : Options) (conf : Conf) (link : Option String)
    (hk : o.keepDst = false) :
    DebrisSpec M B (Only conf link []) (vzclone pid o conf) (fun _ _ => True)
      (Settled conf link) := by
  have hexit {n : ℕ} : DebrisSpec M B (Only conf link []) (Prog.exit n : Script Unit)
      (fun _ => Only conf link []) (Settled conf link) :=
    Shell.Triple.exit Only.stable fun _ h _ => (h.mono (List.nil_subset _)).clean_iff
  have hret : DebrisSpec M B (Only conf link []) (.ret ()) (fun _ => Only conf link [])
      (Settled conf link) := only_spec fun _ h => h
  have hlock : DebrisSpec M B (Only conf link []) (lockCt pid) (fun _ => Only conf link [])
      (Settled conf link) := by
    refine (Shell.Triple.track_all (G := UndoSucceeds) (lockCt_looks pid) Only.stable ?_).conseq
      (fun _ h => h) (fun _ _ h => h.2) fun _ _ h _ => (h.2.mono (List.nil_subset _)).clean_iff
    rintro ⟨i, cmd⟩ (rfl | hc) o w w' t hw - hx
    · exact hw.exec (c := .lock pid) (fun _ h => by cases h) hx
    · exact hw.look hc hx
  refine ((lookDebris_stage (query_looks (E := fun _ => True) _)).orDo hret hexit).bind
    fun _ => ?_
  refine (hlock.orDo hret hexit).bind fun _ => ?_
  refine Shell.Triple.bind (otherDebris_spec (c := .status) fun _ h => by cases h)
    fun (status : Status) => ?_
  refine (lookDebris_stage (checkNodes_looks pid o status)).bind fun _ => ?_
  refine (lookDebris_stage (readConf_looks pid)).bind fun remote => ?_
  refine Shell.Triple.bind (otherDebris_spec (c := .testDdxml) fun _ h => by cases h)
    fun (ploop : Bool) => ?_
  exact cloneDebris_spec (v := ⟨pid, o, conf, status, remote, ploop⟩) hk

/-! ### Failures -/

/-- The history of a run that starts with nothing done. -/
def debris (s : Script Unit × World M B) (as : List ((vzctl M B).Event ⊕ Write M B)) : Debris :=
  ((vzctl M B).machine write).track ((vzctl M B).history Debris.record) s as {}

/-- **A failed run leaves nothing exactly under the condition.** For every run without `--keep-dst`
in which the commands of the `undo` functions succeed, from a destination node without the
container, whatever the state of the container, the options, the layout of the disk, the quota, the
links and the other outcomes: if the script exits with a status that is not zero, there is nothing
left on either node if and only if the run meets the condition. -/
theorem nothing_left_iff {pid : ℕ} {o : Options} {conf : Conf} {w w' : World M B} {n : ℕ}
    {as : List ((vzctl M B).Event ⊕ Write M B)} (hk : o.keepDst = false) (hw : Clean (w, {}))
    (hG : ((vzctl M B).machine write).Along (Shell.Triple.Given UndoSucceeds)
      (vzclone pid o conf, w) as)
    (hrun : ((vzctl M B).machine write).run (vzclone pid o conf, w) as = some (.exit n, w'))
    (hn : n ≠ 0) :
    Clean (w', debris (vzclone pid o conf, w) as) ↔
      Tidy conf w.src.remoteLink (debris (vzclone pid o conf, w) as) := by
  have hstart : Only conf w.src.remoteLink [] (w, {}) :=
    ⟨fun b => Or.inl (hw b), rfl, Or.inl (hw .target), fun _ h => (by cases h), rfl, rfl⟩
  exact (vzcloneDebris_spec M B pid o conf w.src.remoteLink hk).track_run hstart hG hrun hn

/-- One command of the main part fails. -/
def mishap (bad : Action) : (c : Call) → World Unit Unit → Option (c.cmd.Out Unit)
  | ⟨.main, .act a⟩, _ => some (decide (a ≠ bad))
  | ⟨_, c⟩, w => some (c.usual w)

theorem mishap_undo {bad : Action} {c : Call} {w : World Unit Unit} {o : c.cmd.Out Unit}
    (h : mishap bad c w = some o) (hc : c.issuer = .undo) : c.cmd.Happens o := by
  obtain ⟨i, c⟩ := c
  obtain rfl : i = .undo := hc
  cases c with
  | act a => exact (Option.some.inj h).symm
  | _ => trivial

/-- The run in which one command fails, without `--live`, of a container that runs. -/
def mishapRun (bad : Action) : List (vzctl Unit Unit).Event × Script Unit × World Unit Unit :=
  (vzctl Unit Unit).play (mishap bad) (vzclone 1 {} { priv := "/vz/private" })
    (.start .running false () fun _ => some ())

theorem mishapRun_exit (bad : Action) {n : ℕ} (h : (mishapRun bad).2.1 = .exit n) :
    ((vzctl Unit Unit).machine write).run
      (vzclone 1 {} { priv := "/vz/private" }, .start .running false () fun _ => some ())
      ((mishapRun bad).1.map Sum.inl) = some (.exit n, (mishapRun bad).2.2) :=
  (Shell.run_play write _ _).trans (congrArg some (Prod.ext h rfl))

theorem start_clean (run : Run) (ploop : Bool) :
    Clean (World.start run ploop () fun _ => some (), ({} : Debris)) := by
  intro b
  cases b <;> rfl

/-- A container that could not be stopped. -/
theorem nothing_left_stop :
    Clean ((mishapRun .stop).2.2, debris (vzclone 1 {} { priv := "/vz/private" },
      .start .running false () fun _ => some ()) ((mishapRun .stop).1.map Sum.inl)) :=
  (nothing_left_iff rfl (start_clean .running false)
    (Shell.Triple.along_play (fun _ _ _ h _ hc => mishap_undo h hc) _ _)
    (mishapRun_exit .stop (n := migErrStopSource) rfl) (by decide)).mpr
    ⟨rfl, rfl, fun h => by cases h⟩

/-- **The root directory is left.** The private area can not be made, and the script exits without
removing the root directory that it has made before. -/
theorem nothing_left_fails :
    ¬ ∀ (pid : ℕ) (o : Options) (conf : Conf) (w w' : World Unit Unit) (n : ℕ)
      (as : List ((vzctl Unit Unit).Event ⊕ Write Unit Unit)),
      o.keepDst = false → Clean (w, ({} : Debris)) →
      ((vzctl Unit Unit).machine write).Along (Shell.Triple.Given UndoSucceeds)
        (vzclone pid o conf, w) as →
      ((vzctl Unit Unit).machine write).run (vzclone pid o conf, w) as = some (.exit n, w') →
      n ≠ 0 → Clean (w', debris (vzclone pid o conf, w) as) := by
  intro h
  have hbad : (mishapRun .mkdirPrivate).2.2.dst.root = false :=
    h 1 {} { priv := "/vz/private" } _ _ migErrCopy _ rfl (start_clean .running false)
      (Shell.Triple.along_play (fun _ _ _ h _ hc => mishap_undo h hc) _ _)
      (mishapRun_exit .mkdirPrivate rfl) (by decide) .root
  exact absurd (show true = false from hbad) (by decide)

end Parikshan.CloneManager
