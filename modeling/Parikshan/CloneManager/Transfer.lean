import Parikshan.CloneManager.Migrate
import Parikshan.CloneManager.Stages

/-!
# What is on the destination node before the copy takes over

Until the script resumes or starts the copy, the container is on the source node, whatever its
commands do on the destination node and wherever the script exits. What matters then is how the copy
has come to be: from the moment at which the source container is suspended or stopped it writes
nothing, and the files are copied after that, or, with a `ploop` image, the top delta is. A state
that could not be read counts as stopped and not mounted.

Nothing is assumed about the outcomes of the commands. Where a step fails the script exits, or goes
on with a copy that it is going to make anew.

## Main definitions

* `Home`: the container is on the source node.
* `Call.Dormant`, `Call.Early`: commands that do not make the copy run, and do not touch it.
* `Before`, `Named`, `Lower`, `Still`, `Level`: what is known between the stages.

## Main results

* `setUp_spec`, `transfer_spec`: the files of the container are on the destination node from when it
  does not run, and, of a live migration, its memory as well.
* `setUp_early`, `transfer_early`: these stages issue early commands only.
-/

namespace Parikshan.CloneManager

variable {M B : Type}

/-! ### On the source node -/

/-- The copy does not run, and the container is there on the source node. -/
structure Home (w : World M B) : Prop where
  dst : w.dst.run ≠ .running
  exist : w.src.exist = true

section Home

variable {w w' : World M B}

/-- A command other than the two that make the copy run. -/
def Call.Dormant (c : Call) : Prop := c.cmd ∉ [.act .dstResume, .act .dstStart]

/-- A command that does not touch the copy, but for killing it. -/
def Call.Early (c : Call) : Prop :=
  c.cmd ∉ [.act .dstResume, .act .dstStart, .act .undump, .act .dstMount]

theorem Call.Early.dormant {c : Call} (hc : c.Early) : c.Dormant := by
  simp only [Call.Early, Call.Dormant, List.mem_cons, not_or] at hc ⊢
  exact ⟨hc.1, hc.2.1, List.not_mem_nil⟩

theorem Call.Quiet.early {c : Call} (hc : c.Quiet) : c.Early := by
  intro h
  simp only [List.mem_cons, List.not_mem_nil, or_false] at h
  rcases h with h | h | h | h <;> rw [Call.Quiet, h] at hc <;> exact hc

/-- No command makes or removes the container on the source node. -/
theorem Cmd.exec_exist {c : Cmd} {o : c.Out B} (h : c.exec o w = some w') :
    w'.src.exist = w.src.exist := by
  rcases Cmd.exec_cases h with rfl | ⟨a, rfl, rfl⟩ | ⟨pid, owner, rfl, rfl⟩ | ⟨tree, top, -, rfl⟩ |
    ⟨exclude, tree, -, rfl⟩ | ⟨feedback, freeze, top, tree, rfl, rfl⟩
  · rfl
  · cases a <;> rfl
  all_goals rfl

theorem Home.exec (h : Home w) {e : Call} (he : e.Dormant) {o : e.cmd.Out B}
    (hx : e.cmd.exec o w = some w') : Home w' := by
  refine ⟨?_, (Cmd.exec_exist hx).trans h.exist⟩
  rcases Cmd.exec_cases hx with rfl | ⟨a, hc, rfl⟩ | ⟨pid, owner, hc, rfl⟩ | ⟨tree, top, -, rfl⟩ |
    ⟨exclude, tree, -, rfl⟩ | ⟨feedback, freeze, top, tree, hc, rfl⟩
  · exact h.dst
  · cases a with
    | dstResume => exact absurd (by simp [hc]) he
    | dstStart => exact absurd (by simp [hc]) he
    | undump | dstMount | dstKill => exact fun hrun => by cases hrun
    | _ => exact h.dst
  all_goals exact h.dst

end Home

/-! ### Assertions -/

/-- Until the container is suspended or stopped. -/
structure Before (v : Vars) (w : World M B) : Prop extends Home w where
  layout : w.src.ploop = v.ploop

/-- The name of the top delta has been read. -/
structure Named (v : Vars) (top : String) (w : World M B) : Prop extends Before v w where
  named : v.ploop = true → v.status.running = true → w.src.top = top

/-- The first `rsync` is done. -/
structure Lower (v : Vars) (top : String) (w : World M B) : Prop extends Named v top w where
  lower : v.ploop = true → v.status.running = true →
    ∀ path ≠ top, w.dst.tree path = w.src.tree path
  idle : v.status.running = false → w.src.run ≠ .running → w.dst.tree = w.src.tree

/-- The container has been suspended or stopped, if it was running, and its image been copied. -/
structure Still (v : Vars) (w : World M B) : Prop extends Before v w where
  still : v.status.running = true → w.src.run ≠ .running
  image : v.ploop = true → v.status.running = true → w.dst.tree = w.src.tree
  idle : v.status.running = false → w.src.run ≠ .running → w.dst.tree = w.src.tree

/-- Its files are on the destination node, as far as it does not run. -/
structure Level (v : Vars) (w : World M B) : Prop extends Before v w where
  still : v.status.running = true → w.src.run ≠ .running
  level : w.src.run ≠ .running → w.dst.tree = w.src.tree

/-- The memory of a container that is migrated live has been dumped, and the dump been copied. -/
def Dump (v : Vars) (w : World M B) : Prop :=
  v.opts.online = true → w.src.run ≠ .running ∧ w.dst.dump = some w.src.mem

section Stable

variable {v : Vars} {top : String} {P : World M B → Prop}

/-- What a container that runs on the source node only can do. -/
theorem stable_of_home (hP : ∀ w, P w → Home w)
    (hmem : ∀ (w : World M B) m, P w → w.src.run = .running →
      P { w with src := { w.src with mem := m } })
    (hdisk : ∀ (w : World M B) path b, P w → w.src.run = .running →
      (w.src.ploop = true → path = w.src.top) →
      P { w with src := { w.src with tree := Function.update w.src.tree path b } }) :
    Stable writeAt P := by
  rintro ⟨node, x⟩ w w' h hx
  cases node with
  | src =>
    obtain ⟨hrun, ⟨m, rfl⟩ | ⟨path, b, hpath, rfl⟩⟩ := write_cases hx
    · exact hmem w m h hrun
    · exact hdisk w path b h hrun hpath
  | dst =>
    simp only [writeAt, writeDst, if_neg (hP w h).dst] at hx
    cases hx

theorem Home.stable : Stable writeAt (Home (M := M) (B := B)) :=
  stable_of_home (fun _ h => h) (fun _ _ h _ => ⟨h.dst, h.exist⟩)
    fun _ _ _ h _ _ => ⟨h.dst, h.exist⟩

theorem Before.stable : Stable writeAt (Before (M := M) (B := B) v) :=
  stable_of_home (fun _ h => h.toHome) (fun _ _ h _ => ⟨⟨h.dst, h.exist⟩, h.layout⟩)
    fun _ _ _ h _ _ => ⟨⟨h.dst, h.exist⟩, h.layout⟩

theorem Named.stable : Stable writeAt (Named (M := M) (B := B) v top) :=
  stable_of_home (fun _ h => h.toHome) (fun _ _ h _ => ⟨⟨⟨h.dst, h.exist⟩, h.layout⟩, h.named⟩)
    fun _ _ _ h _ _ => ⟨⟨⟨h.dst, h.exist⟩, h.layout⟩, h.named⟩

/-- The container writes to the top delta only. -/
theorem Lower.stable : Stable writeAt (Lower (M := M) (B := B) v top) := by
  refine stable_of_home (fun _ h => h.toHome) (fun w m h hrun => ?_)
    fun w path b h hrun hpath => ?_
  · exact ⟨⟨⟨⟨h.dst, h.exist⟩, h.layout⟩, h.named⟩, h.lower, h.idle⟩
  · refine ⟨⟨⟨⟨h.dst, h.exist⟩, h.layout⟩, h.named⟩, fun hp hr path' hne => ?_,
      fun _ hnot => absurd hrun hnot⟩
    have htop : path = top := (hpath (h.layout.trans hp)).trans (h.named hp hr)
    simp only [Function.update_of_ne (htop ▸ hne)]
    exact h.lower hp hr path' hne

theorem Still.stable : Stable writeAt (Still (M := M) (B := B) v) := by
  refine stable_of_home (fun _ h => h.toHome) (fun w m h hrun => ?_) fun w path b h hrun _ => ?_
  · exact ⟨⟨⟨h.dst, h.exist⟩, h.layout⟩, h.still, h.image, h.idle⟩
  · exact ⟨⟨⟨h.dst, h.exist⟩, h.layout⟩, h.still, fun _ hr => absurd hrun (h.still hr),
      fun _ hnot => absurd hrun hnot⟩

theorem Level.stable : Stable writeAt (Level (M := M) (B := B) v) := by
  refine stable_of_home (fun _ h => h.toHome) (fun w m h hrun => ?_) fun w path b h hrun _ => ?_
  · exact ⟨⟨⟨h.dst, h.exist⟩, h.layout⟩, h.still, h.level⟩
  · exact ⟨⟨⟨h.dst, h.exist⟩, h.layout⟩, h.still, fun hnot => absurd hrun hnot⟩

/-- Nothing that the container does makes the copy run. -/
theorem stable_idle : Stable writeAt fun w : World M B => w.dst.run ≠ .running := by
  rintro ⟨node, x⟩ w w' h hx
  cases node with
  | src =>
    obtain ⟨-, ⟨m, rfl⟩ | ⟨path, b, -, rfl⟩⟩ := write_cases hx
    · exact h
    · exact h
  | dst =>
    simp only [writeAt, writeDst, if_neg h] at hx
    cases hx

/-- A container that does not run writes nothing. -/
theorem stable_of_not_running (hP : ∀ w, P w → Home w ∧ w.src.run ≠ .running) :
    Stable writeAt P := by
  rintro ⟨node, x⟩ w w' h hx
  cases node with
  | src => exact absurd (write_cases hx).1 (hP w h).2
  | dst =>
    simp only [writeAt, writeDst, if_neg (hP w h).1.dst] at hx
    cases hx

/-- Nor does one that has been suspended. -/
theorem Dump.stable (hP : ∀ w, P w → Home w) (hstable : Stable writeAt P) :
    Stable writeAt fun w => P w ∧ Dump (M := M) (B := B) v w := by
  rintro ⟨node, x⟩ w w' ⟨h, hdump⟩ hx
  refine ⟨hstable _ _ _ h hx, fun ho => ?_⟩
  obtain ⟨hnot, hd⟩ := hdump ho
  cases node with
  | src => exact absurd (write_cases hx).1 hnot
  | dst =>
    simp only [writeAt, writeDst, if_neg (hP w h).dst] at hx
    cases hx

end Stable

/-! ### Rules -/

section Spec

variable {α : Type} {P K : World M B → Prop} {p : Script α}

variable (M B) in
/-- Triples of the script, whatever the outcomes of its commands and wherever it exits. -/
abbrev MoveSpec (P : World M B → Prop) (p : Script α) (Q : α → World M B → Prop) : Prop :=
  (vzctl M B).Triple writeAt (fun _ _ => True) P p Q fun _ _ => True

/-- A program that only exits. -/
theorem exits_spec {Q : α → World M B → Prop}
    (hp : p.All (fun _ => True) (fun _ => False) fun _ => True) : MoveSpec M B P p Q :=
  (Shell.Triple.of_all (I := fun _ => True) hp (Stable.const True)
    fun _ _ _ _ _ _ _ _ => trivial).conseq (fun _ _ => trivial) (fun _ _ h => h.1.elim)
      fun _ _ _ => trivial

theorem giveUp_exits {q : Script Unit} {n : ℕ} :
    (giveUp q n).All (fun _ => True) (fun _ => False) fun _ => True :=
  giveUp_all (Prog.All.of_forall q (fun _ => trivial) (fun _ => trivial) fun _ => trivial) trivial

/-- A step that gives up if it fails. -/
theorem attemptMove_spec {p : Script Bool} {q : Script Unit} {n : ℕ} (hK : Stable writeAt K)
    (hp : MoveSpec M B P p fun ok w => ok = true → K w) :
    MoveSpec M B P (p.orDo (giveUp q n)) fun _ => K := by
  refine hp.bind fun ok => ?_
  cases ok with
  | true => exact Shell.Triple.ret (hK.imp _) (fun _ h => h rfl)
  | false => exact exits_spec giveUp_exits

theorem done_spec (hK : Stable writeAt K) (h : ∀ w, P w → K w) :
    MoveSpec M B P (.ret ()) fun _ => K :=
  Shell.Triple.pre (P := K) (Shell.Triple.ret hK fun _ h => h) h

/-- One command. -/
theorem command_spec {i : Issuer} {c : Cmd} {Q : c.Reply → World M B → Prop}
    (hP : Stable writeAt P) (hQ : ∀ r, Stable writeAt (Q r))
    (h : ∀ o w w', P w → c.exec o w = some w' → Q (c.reply B o) w') :
    MoveSpec M B P (issue i c) Q :=
  Shell.Triple.issue hP hQ fun o w w' hw _ hx => h o w w' hw hx

/-- An action of the main part that gives up if it fails. -/
theorem actOrGiveUp_spec {a : Action} {q : Script Unit} {n : ℕ} (hP : Stable writeAt P)
    (hK : Stable writeAt K) (h : ∀ w, P w → K (a.effect w)) :
    MoveSpec M B P ((act a).orDo (giveUp q n)) fun _ => K := by
  refine attemptMove_spec hK (command_spec hP (fun _ => hK.imp _) ?_)
  intro o w w' hw hx hok
  obtain rfl : o = true := hok
  obtain rfl := Option.some.inj hx
  exact h w hw

variable {v : Vars} {top : String}

/-- Quiet commands are quiet in every respect that matters here. -/
theorem Before.quiet {w w' : World M B} (h : Before v w) {e : Call} (he : e.Quiet)
    {o : e.cmd.Out B} (hx : e.cmd.exec o w = some w') : Before v w' := by
  obtain ⟨-, hp, hd, -⟩ := Cmd.Quiet.exec he hx
  exact ⟨⟨hd ▸ h.dst, (Cmd.exec_exist hx).trans h.exist⟩, hp.trans h.layout⟩

theorem quiet_before {V : α → Prop} {X : ℕ → Prop} (hp : p.All Call.Quiet V X) :
    MoveSpec M B (Before v) p fun a w => V a ∧ Before v w :=
  (Shell.Triple.of_all hp Before.stable fun _ hc _ _ _ hw _ hx => hw.quiet hc hx).conseq
    (fun _ h => h) (fun _ _ h => h) fun _ _ _ => trivial

/-! ### The stages -/

/-- A live migration goes on only if the container is running. -/
theorem checkNodes_running (pid : ℕ) (o : Options) (status : Status) :
    (checkNodes pid o status).All (fun _ => True)
      (fun _ => o.online = true → status.running = true) fun _ => True := by
  have hall {α : Type} (p : Script α) {Q : α → Prop} (hQ : ∀ a, Q a) :
      p.All (fun _ => True) Q fun _ => True :=
    Prog.All.of_forall p (fun _ => trivial) hQ fun _ => trivial
  refine (hall _ fun _ => trivial).bind fun _ _ => ?_
  refine (Prog.All.when (Q := fun _ => o.online = true → status.running = true)
    (fun _ => giveUp_all (hall _ fun _ => trivial) trivial) fun h ho => ?_).bind
    fun _ hrunning => hall _ fun _ => hrunning
  simpa [ho] using h

/-- After the checks the script knows the layout of the disk, and that a container that it is to
migrate live is running. -/
theorem setUp_spec (pid : ℕ) (o : Options) (conf : Conf) :
    MoveSpec M B Home (setUp pid o conf) fun v w =>
      (v.opts = o ∧ (v.opts.online = true → v.status.running = true)) ∧ Before v w := by
  have hhome {α : Type} {p : Script α} {A : Call → Prop} {V : α → Prop} {X : ℕ → Prop}
      (hp : p.All A V X) (hA : ∀ c, A c → c.Dormant) :
      MoveSpec M B Home p fun a w => V a ∧ Home w :=
    (Shell.Triple.of_all hp Home.stable fun c hc _ _ _ hw _ hx => hw.exec (hA c hc) hx).conseq
      (fun _ h => h) (fun _ _ h => h) fun _ _ _ => trivial
  have hskip {α : Type} {p : Script α} {A : Call → Prop} {V : α → Prop} {X : ℕ → Prop}
      (hp : p.All A V X) (hA : ∀ c, A c → c.Dormant) : MoveSpec M B Home p fun _ => Home :=
    (hhome hp hA).post fun _ _ h => h.2
  refine Shell.Triple.bind (Q := fun _ => Home) ?_ fun _ => ?_
  · exact hskip (Prog.All.orDo (Q := fun _ => True) (E := fun _ => True) (query_all _) trivial
      trivial) fun _ hc => (Call.Quiet.early hc).dormant
  refine Shell.Triple.bind (Q := fun _ => Home) ?_ fun _ => ?_
  · refine hskip (Prog.All.orDo (Q := fun _ => True) (E := fun _ => True)
      ((lockCt_all pid).mono (fun _ h => h) (fun _ h => h) fun _ _ => trivial) trivial trivial) ?_
    rintro c (hc | hc)
    · simp [Call.Dormant, hc]
    · exact (Call.Quiet.early hc).dormant
  refine Shell.Triple.bind (Q := fun _ => Home) ?_ fun (status : Status) => ?_
  · refine hskip (issue_all (P := fun c => c.cmd = .status) (E := fun _ => True) rfl) ?_
    exact fun c hc => by simp [Call.Dormant, hc]
  refine (hhome ((checkNodes_all pid o status).and (checkNodes_running pid o status))
    fun _ hc => (Call.Quiet.early hc.1).dormant).bind fun _ => ?_
  refine Shell.Triple.of_pure (fun _ h => h.1.2) fun hrun => ?_
  refine Shell.Triple.pre (P := Home) ?_ fun _ h => h.2
  refine (hskip (readConf_all pid) fun _ hc => (Call.Quiet.early hc).dormant).bind fun remote => ?_
  refine Shell.Triple.bind (Q := fun (ploop : Bool) w => ploop = w.src.ploop ∧ Home w) ?_
    fun (ploop : Bool) => ?_
  · refine command_spec Home.stable (fun ploop : Bool => ?_) fun (o : Bool) w w' hw hx => ?_
    · exact stable_of_home (fun _ h => h.2) (fun _ _ h _ => ⟨h.1, h.2.dst, h.2.exist⟩)
        fun _ _ _ h _ _ => ⟨h.1, h.2.dst, h.2.exist⟩
    · simp only [Cmd.exec] at hx
      split_ifs at hx with ho
      obtain rfl := Option.some.inj hx
      exact ⟨ho, hw⟩
  · have hstable : Stable writeAt
        (Before (M := M) (B := B) { pid, opts := o, conf, status, remote, ploop }) := Before.stable
    exact (Shell.Triple.ret hstable fun _ h => ⟨⟨rfl, hrun⟩, h⟩).pre fun _ h => ⟨h.2, h.1.symm⟩

/-- The configuration on the remote node. -/
theorem copyConf_before : MoveSpec M B (Before v) (copyConf v) fun _ => Before v := by
  have hkeep (a : Action) (ha : (∃ priv, a = .scpConf priv) ∨ ∃ priv, a = .setPaths priv)
      (w : World M B) (h : Before v w) : Before v (a.effect w) := by
    rcases ha with ⟨priv, rfl⟩ | ⟨priv, rfl⟩ <;> exact ⟨⟨h.dst, h.exist⟩, h.layout⟩
  refine (actOrGiveUp_spec Before.stable Before.stable (hkeep _ (.inl ⟨_, rfl⟩))).bind fun _ => ?_
  refine Shell.Triple.ignore (K := fun _ => Before v) ?_ fun _ =>
    Shell.Triple.ret Before.stable fun _ h => h
  refine command_spec Before.stable (fun _ => Before.stable) fun (o : Bool) w w' hw hx => ?_
  obtain rfl := Option.some.inj hx
  cases o with
  | true => exact hkeep _ (.inr ⟨_, rfl⟩) w hw
  | false => exact hw

/-- The top delta that is read is the one to which the container writes. -/
theorem getTopDelta_named : MoveSpec M B (Before v) (getTopDelta v) fun top => Named v top := by
  unfold getTopDelta
  split_ifs with hploop
  · refine Shell.Triple.bind (Q := fun (info : Option String) w =>
      Before v w ∧ ∀ top, info = some top → w.src.top = top) ?_ fun info => ?_
    · refine command_spec Before.stable (fun info => ?_) fun (o : Option String) w w' hw hx => ?_
      · exact stable_of_home (fun _ h => h.1.toHome)
          (fun _ _ h _ => ⟨⟨⟨h.1.dst, h.1.exist⟩, h.1.layout⟩, h.2⟩)
          fun _ _ _ h _ _ => ⟨⟨⟨h.1.dst, h.1.exist⟩, h.1.layout⟩, h.2⟩
      · simp only [Cmd.exec] at hx
        split_ifs at hx with ho
        obtain rfl := Option.some.inj hx
        refine ⟨hw, fun top (htop : o = some top) => ?_⟩
        rcases ho with ho | ho
        · exact Option.some.inj (ho.symm.trans htop)
        · cases ho.symm.trans htop
    · cases info with
      | none => exact exits_spec ((Prog.All.of_forall _ (fun _ => trivial) (fun _ => trivial)
          fun _ => trivial).bind fun _ _ => trivial)
      | some top =>
        exact Shell.Triple.pre (Shell.Triple.ret Named.stable fun _ h => h)
          fun w h => ⟨h.1, fun _ _ => h.2 top rfl⟩
  · refine Shell.Triple.pre (Shell.Triple.ret Named.stable fun _ h => h)
      fun w h => ⟨h, fun hp hr => absurd ?_ hploop⟩
    simp [hp, hr]

/-- What the first `rsync` leaves, whether or not files have vanished meanwhile. -/
theorem syncPrivate_lower :
    MoveSpec M B (Named v top) (syncPrivate v top) fun _ => Lower v top := by
  refine Shell.Triple.bind (Q := fun (ret : ℕ) w => (ret = 0 ∨ ret = 24) → Lower v top w) ?_
    fun ret => ?_
  · refine command_spec Named.stable (fun _ => Lower.stable.imp _) ?_
    intro (o : ℕ × Tree B) w w' hw hx hok
    have hbefore := hw.toBefore.quiet (e := ⟨.main, .rsync1 _⟩) trivial hx
    obtain rfl : w' = w.sync _ o.2 := (Option.some.inj hx).symm.trans (if_pos hok)
    refine ⟨⟨hbefore, hw.named⟩, fun hp hr path hne => ?_, fun hr hnot => funext fun path => ?_⟩
    · have hwrites : ¬ w.src.Writes path := fun h =>
        hne ((h.2 (hw.layout.trans hp)).trans (hw.named hp hr))
      simp only [World.sync, hp, hr, Bool.and_self, if_true, Option.some.injEq, if_neg hne.symm,
        if_neg hwrites]
    · have hwrites : ¬ w.src.Writes path := fun h => hnot h.1
      simp only [World.sync, hr, Bool.and_false, Bool.false_eq_true, if_false, reduceCtorEq,
        if_neg hwrites]
  · by_cases hret : (ret ≠ 24 && ret ≠ 0) = true
    · rw [hret]
      exact Shell.Triple.bind (Q := fun _ _ => False) (exits_spec giveUp_exits)
        fun _ _ h => h.elim
    · rw [Bool.not_eq_true] at hret
      rw [hret]
      have hok : ret = 0 ∨ ret = 24 := by
        by_contra hne
        rw [not_or] at hne
        simp [hne.1, hne.2] at hret
      refine Shell.Triple.pre (P := Lower v top) ?_ fun _ h => h hok
      refine Shell.Triple.bind (Q := fun _ => Lower v top)
        (Shell.Triple.ret Lower.stable fun _ h => h) fun _ => ?_
      refine Shell.Triple.keep (vzfsync_all v) Lower.stable ?_
      rintro ⟨i, c⟩ ⟨q, rfl⟩ o w w' hw - hx
      obtain rfl := Option.some.inj hx
      exact hw

/-- `ploop copy` delivers the top delta as it is when the container is suspended or stopped. -/
theorem ploopCopy_still (freeze : Freeze) (hp : v.ploop = true) (hr : v.status.running = true) :
    MoveSpec M B (Lower v top) (ploopCopy freeze top) fun ok w => ok = true → Still v w := by
  have hnot (r : Run) : freeze.run r ≠ .running := by cases freeze <;> cases r <;> decide
  have hidle {w : World M B} {Q : Prop} (h : v.status.running = false) : Q := by
    cases hr.symm.trans h
  refine ploopCopy_triple (fun _ _ => True) Lower.stable (fun q => ?_) ?_ ?_ (fun _ _ _ h => ?_)
    fun feedback => ?_
  · refine command_spec Lower.stable (fun _ => (Stable.const _).and Lower.stable) ?_
    intro o w w' hw hx
    obtain rfl := Option.some.inj hx
    exact ⟨trivial, hw⟩
  · refine command_spec Lower.stable (fun _ => Lower.stable) fun (o : Bool) w w' hw hx => ?_
    obtain rfl := Option.some.inj hx
    cases o with
    | false => exact hw
    | true =>
      refine ⟨⟨⟨⟨hw.dst, hw.exist⟩, hw.layout⟩, hw.named⟩, fun hp hr path hne => ?_,
        fun h => hidle (w := w) h⟩
      exact (Function.update_of_ne hne _ _).trans (hw.lower hp hr path hne)
  · refine command_spec Lower.stable (fun _ => Lower.stable) fun o w w' hw hx => ?_
    obtain rfl := Option.some.inj hx
    exact hw
  · cases h
  · refine command_spec Lower.stable (fun _ => Still.stable.imp _) ?_
    intro (o : Copied) w w' hw hx hok
    obtain rfl : o = .ok := of_decide_eq_true hok
    obtain rfl := Option.some.inj hx
    refine ⟨⟨⟨hw.dst, hw.exist⟩, hw.layout⟩, fun _ => hnot _, fun _ _ => funext fun path => ?_,
      fun h => hidle (w := w) h⟩
    by_cases hne : path = top
    · subst hne
      exact (Function.update_self ..).trans (congrArg w.src.tree (hw.named hp hr))
    · exact (Function.update_of_ne hne _ _).trans (hw.lower hp hr path hne)

/-- Suspending or stopping a container without a `ploop` image. -/
theorem freeze_still {a : Action} {q : Script Unit} {n : ℕ} (ha : a = .suspend ∨ a = .stop)
    (hp : v.ploop = false) (hr : v.status.running = true) :
    MoveSpec M B (Lower v top) ((act a).orDo (giveUp q n)) fun _ => Still v := by
  refine actOrGiveUp_spec Lower.stable Still.stable fun w h => ?_
  have hkeep (r : Run → Run) (hnot : ∀ s, r s ≠ .running) :
      Still v { w with src := w.src.setRun r } :=
    ⟨⟨⟨h.dst, h.exist⟩, h.layout⟩, fun _ => hnot _, fun h => (by cases hp.symm.trans h),
      fun h => (by cases hr.symm.trans h)⟩
  rcases ha with rfl | rfl
  · exact hkeep Run.suspend fun s => by cases s <;> decide
  · exact hkeep Run.stop fun s => by cases s <;> decide

/-- What unmounting does to the state of the container. -/
theorem umount_ne_running {r : Run} : r.umount ≠ .running ↔ r ≠ .running := by
  cases r <;> decide

theorem suspendAndDump_still (hr : v.status.running = true) :
    MoveSpec M B (Lower v top) (suspendAndDump v top) fun _ w => Still v w ∧ Dump v w := by
  refine Shell.Triple.bind (Q := fun _ => Still v) ?_ fun _ => ?_
  · unfold suspendCt
    split_ifs with hp
    · exact attemptMove_spec Still.stable (ploopCopy_still .suspend hp hr)
    · exact freeze_still (.inl rfl) (by simpa using hp) hr
  refine Shell.Triple.bind
    (Q := fun _ w => Still v w ∧ w.src.dump = some w.src.mem) ?_ fun _ => ?_
  · exact actOrGiveUp_spec Still.stable
      (stable_of_not_running fun _ h => ⟨h.1.toHome, h.1.still hr⟩)
      fun w h => ⟨⟨⟨⟨h.dst, h.exist⟩, h.layout⟩, h.still, h.image, h.idle⟩, rfl⟩
  · exact actOrGiveUp_spec (stable_of_not_running fun _ h => ⟨h.1.toHome, h.1.still hr⟩)
      (Dump.stable (fun _ h => h.toHome) Still.stable)
      fun w h => ⟨⟨⟨⟨h.1.dst, h.1.exist⟩, h.1.layout⟩, h.1.still, h.1.image, h.1.idle⟩,
        fun _ => ⟨h.1.still hr, h.2⟩⟩

theorem stopCt_still (hr : v.status.running = true) :
    MoveSpec M B (Lower v top) (stopCt v top) fun _ => Still v := by
  unfold stopCt
  split_ifs with hp
  · refine (attemptMove_spec Still.stable (ploopCopy_still .stop hp hr)).bind fun _ => ?_
    refine actOrGiveUp_spec Still.stable Still.stable fun w h => ?_
    exact ⟨⟨⟨h.dst, h.exist⟩, h.layout⟩, fun hr => umount_ne_running.mpr (h.still hr), h.image,
      fun hr hnot => h.idle hr (umount_ne_running.mp hnot)⟩
  · exact freeze_still (.inr rfl) (by simpa using hp) hr

/-- From when the container is suspended, stopped or unmounted it stays as it is. -/
theorem suspendOrStop_still (hlive : v.opts.online = true → v.status.running = true) :
    MoveSpec M B (Lower v top) (suspendOrStop v top) fun _ w => Still v w ∧ Dump v w := by
  unfold suspendOrStop
  split_ifs with ho hr
  · exact suspendAndDump_still (hlive ho)
  · exact (stopCt_still hr).post fun _ _ h => ⟨h, fun h => absurd h ho⟩
  · have hvacuous {P : Prop} (h : v.status.running = true) : P := absurd h hr
    refine Shell.Triple.post (Q := fun _ => Still v) ?_ fun _ _ h => ⟨h, fun h => absurd h ho⟩
    refine Shell.Triple.when (fun _ => ?_) fun _ => ?_
    · refine actOrGiveUp_spec Lower.stable Still.stable fun w h => ?_
      exact ⟨⟨⟨h.dst, h.exist⟩, h.layout⟩, hvacuous, fun _ => hvacuous,
        fun hr hnot => h.idle hr (umount_ne_running.mp hnot)⟩
    · exact done_spec Still.stable fun w h =>
        ⟨⟨⟨h.dst, h.exist⟩, h.layout⟩, hvacuous, fun _ => hvacuous, h.idle⟩

/-- The second `rsync` finds a container that does not write any more. -/
theorem syncPrivate2_level :
    MoveSpec M B (fun w => Still v w ∧ Dump v w) (syncPrivate2 v)
      fun _ w => Level v w ∧ Dump v w := by
  have hstill : Stable writeAt fun w : World M B => Still v w ∧ Dump v w :=
    Dump.stable (fun _ h => h.toHome) Still.stable
  have hlevel : Stable writeAt fun w : World M B => Level v w ∧ Dump v w :=
    Dump.stable (fun _ h => h.toHome) Level.stable
  refine Shell.Triple.when (fun h => ?_) fun h => ?_
  · rw [Bool.and_eq_true] at h
    refine Shell.Triple.bind (Q := fun (ret : ℕ) w => ret = 0 → Level v w ∧ Dump v w) ?_
      fun ret => ?_
    · refine command_spec hstill (fun _ => hlevel.imp _) ?_
      intro (o : ℕ × Tree B) w w' ⟨hw, hdump⟩ hx hok
      obtain rfl : w' = w.sync none o.2 :=
        (Option.some.inj hx).symm.trans (if_pos (Or.inl hok))
      refine ⟨⟨⟨⟨hw.dst, hw.exist⟩, hw.layout⟩, hw.still, fun hnot => funext fun path => ?_⟩,
        hdump⟩
      have hwrites : ¬ w.src.Writes path := fun h => hnot h.1
      simp only [World.sync, reduceCtorEq, if_false, if_neg hwrites]
    · by_cases hret : ret = 0
      · subst hret
        exact done_spec hlevel fun _ h => h rfl
      · have hcond : (decide (ret ≠ 0)) = true := by simpa using hret
        rw [hcond]
        exact exits_spec giveUp_exits
  · refine done_spec hlevel fun w ⟨hw, hdump⟩ => ⟨⟨hw.toBefore, hw.still, fun hnot => ?_⟩, hdump⟩
    rcases Bool.and_eq_false_iff.mp h with hr | hp
    · exact hw.idle hr hnot
    · by_cases hr : v.status.running = true
      · exact hw.image (by simpa using hp) hr
      · exact hw.idle (by simpa using hr) hnot

theorem syncQuota_level :
    MoveSpec M B (fun w => Level v w ∧ Dump v w) (syncQuota v) fun _ w => Level v w ∧ Dump v w := by
  have hlevel : Stable writeAt fun w : World M B => Level v w ∧ Dump v w :=
    Dump.stable (fun _ h => h.toHome) Level.stable
  have hstep {a : Action} {q : Script Unit} {n : ℕ}
      (ha : a = .quotaDump ∨ a = .scpQuotaDump ∨ a = .quotaLoad) :
      MoveSpec M B (fun w => Level v w ∧ Dump v w) ((act a).orDo (giveUp q n))
        fun _ w => Level v w ∧ Dump v w := by
    refine actOrGiveUp_spec hlevel hlevel fun w ⟨h, hdump⟩ => ?_
    rcases ha with rfl | rfl | rfl <;>
      exact ⟨⟨⟨⟨h.dst, h.exist⟩, h.layout⟩, h.still, h.level⟩, hdump⟩
  refine Shell.Triple.when (fun _ => ?_) fun _ => done_spec hlevel fun _ h => h
  exact (hstep (.inl rfl)).bind fun _ => (hstep (.inr (.inl rfl))).bind fun _ =>
    hstep (.inr (.inr rfl))

/-- **The copy is the container.** -/
theorem transfer_spec (hlive : v.opts.online = true → v.status.running = true) :
    MoveSpec M B (Before v) (transfer v) fun _ w => Level v w ∧ Dump v w := by
  have hquiet {p : Script Unit} {V : Unit → Prop} {X : ℕ → Prop} (hp : p.All Call.Quiet V X) :
      MoveSpec M B (Before v) p fun _ => Before v :=
    (quiet_before hp).post fun _ _ h => h.2
  refine (hquiet (checkConf_all v)).bind fun _ => copyConf_before.bind fun _ => ?_
  refine (hquiet (prepare_all v)).bind fun _ => (hquiet (compactSnapshot_all v)).bind fun _ => ?_
  refine getTopDelta_named.bind fun top => syncPrivate_lower.bind fun _ => ?_
  exact (suspendOrStop_still hlive).bind fun _ => syncPrivate2_level.bind fun _ => syncQuota_level

end Spec

/-! ### Early commands -/

section Early

variable {α : Type} {E : ℕ → Prop}

theorem early_of_quiet {p : Script α} {Q : α → Prop} (hp : p.All Call.Quiet Q E) :
    p.All Call.Early Q E :=
  hp.mono (fun _ hc => Call.Quiet.early hc) (fun _ h => h) fun _ h => h

/-- The copy is not resumed or started by an `undo` function. -/
theorem early_of_below {p : Script α} {Q : α → Prop} {k : ℕ} (hp : p.All (Call.Below k) Q E)
    (hk : k ≤ 12) : p.All Call.Early Q E := by
  refine hp.mono (fun c hc h => ?_) (fun _ h => h) fun _ h => h
  have hlink := hc.mono hk
  simp only [List.mem_cons, List.not_mem_nil, or_false] at h
  rcases h with h | h | h | h <;> rw [Call.Below, h] at hlink <;>
    exact absurd (show 13 ≤ 12 from hlink) (by decide)

theorem dormant_of_early {p : Script α} {Q : α → Prop} (hp : p.All Call.Early Q E) :
    p.All Call.Dormant Q E :=
  hp.mono (fun _ hc => hc.dormant) (fun _ h => h) fun _ h => h

theorem dormant_of_below {p : Script α} {Q : α → Prop} {k : ℕ} (hp : p.All (Call.Below k) Q E)
    (hk : k ≤ 12) : p.All Call.Dormant Q E :=
  dormant_of_early (early_of_below hp hk)

variable (v : Vars)

theorem setUp_early (pid : ℕ) (o : Options) (conf : Conf) :
    (setUp pid o conf).All Call.Early (fun v => v.opts = o) (· ≠ 0) := by
  have hlock : (lockCt pid).All Call.Early (fun _ => True) (· ≠ 0) := by
    refine (lockCt_all pid).mono ?_ (fun _ h => h) fun _ h => h
    rintro c (hc | hc)
    · simp [Call.Early, hc]
    · exact Call.Quiet.early hc
  refine Prog.All.bind (Q := fun _ => True) ?_ fun _ _ => ?_
  · exact Prog.All.orDo (early_of_quiet (query_all _)) trivial (by decide : migErrNoexist ≠ 0)
  refine Prog.All.bind (Q := fun _ => True) (Prog.All.orDo hlock trivial
    (by decide : migErrLocked ≠ 0)) fun _ _ => ?_
  refine Prog.All.bind (Q := fun _ => True) (issue_all (by simp [Call.Early])) fun status _ => ?_
  refine (early_of_quiet (checkNodes_all pid o status)).bind fun _ _ => ?_
  refine (early_of_quiet (readConf_all pid)).bind fun remote _ => ?_
  exact Prog.All.bind (Q := fun _ => True) (issue_all (by simp [Call.Early])) fun ploop _ => rfl

theorem ploopCopy_early (freeze : Freeze) (top : String) :
    (ploopCopy freeze top).All Call.Early (fun _ => True) E :=
  ploopCopy_all (fun _ => by simp [Call.Early]) (by simp [Call.Early]) (by simp [Call.Early])
    fun _ => by simp [Call.Early]

theorem undoDump_early : (undoDump v).All Call.Early (fun _ => True) E :=
  (ignore_all (issue_all (by simp [Call.Early]))).bind fun _ _ =>
    early_of_below (undoSuspend_below v) (by omega)

theorem suspendOrStop_early (top : String) :
    (suspendOrStop v top).All Call.Early (fun _ => True) (· ≠ 0) := by
  have hsync := early_of_below (undoSync_below (E := (· ≠ 0)) v) (by omega)
  have hrestore {a : Action} (ha : a.link ≤ 8) :
      (restore a >>= fun _ => undoSync v).All Call.Early (fun _ => True) (· ≠ 0) :=
    early_of_below (restore_below v ha) (by omega)
  unfold suspendOrStop
  split_ifs
  · refine Prog.All.bind (Q := fun _ => True) ?_ fun _ _ => ?_
    · unfold suspendCt
      split_ifs
      · exact orDo_giveUp_all (ploopCopy_early _ _) (hrestore (by decide)) (by decide)
      · exact orDo_giveUp_all (act_all (by simp [Call.Early])) hsync (by decide)
    refine (orDo_giveUp_all (act_all (by simp [Call.Early]))
      (early_of_below (undoSuspend_below v) (by omega)) (by decide)).bind fun _ _ => ?_
    exact orDo_giveUp_all (act_all (by simp [Call.Early])) (undoDump_early v) (by decide)
  · unfold stopCt
    split_ifs
    · refine (orDo_giveUp_all (ploopCopy_early _ _) (hrestore (by decide)) (by decide)).bind
        fun _ _ => ?_
      exact orDo_giveUp_all (act_all (by simp [Call.Early])) (hrestore (by decide)) (by decide)
    · exact orDo_giveUp_all (act_all (by simp [Call.Early])) hsync (by decide)
  · exact when_all (orDo_giveUp_all (act_all (by simp [Call.Early])) hsync (by decide))

/-- With `--check-only` the script exits with success here, and otherwise it does not. -/
theorem transfer_early : (transfer v).All Call.Early (fun _ => True)
    fun n => n = 0 → v.opts.checkOnly = true := by
  have hmono {α : Type} {p : Script α} {P : Call → Prop} {Q : α → Prop}
      (hp : p.All P Q (· ≠ 0)) (hP : ∀ c, P c → c.Early) :
      p.All Call.Early (fun _ => True) fun n => n = 0 → v.opts.checkOnly = true :=
    hp.mono hP (fun _ _ => trivial) fun _ hn h => absurd h hn
  have hquiet {α : Type} {p : Script α} {Q : α → Prop} (hp : p.All Call.Quiet Q (· ≠ 0)) :
      p.All Call.Early (fun _ => True) fun n => n = 0 → v.opts.checkOnly = true :=
    hmono hp fun _ => Call.Quiet.early
  have hquota := early_of_below (undoQuotaDump_below (E := (· ≠ 0)) v) (by omega)
  refine (early_of_quiet (checkConf_all v)).bind fun _ _ => ?_
  refine (hmono (Q := fun _ => True) ?_ fun _ h => h).bind fun _ _ => ?_
  · exact (orDo_giveUp_all (act_all (by simp [Call.Early]))
      (early_of_quiet (undoLock_all v.pid)) (by decide)).bind fun _ _ =>
        ignore_all (act_all (by simp [Call.Early]))
  refine (hquiet (prepare_all v)).bind fun _ _ => ?_
  refine (hquiet (compactSnapshot_all v)).bind fun _ _ => ?_
  refine (hquiet (getTopDelta_all v)).bind fun top _ => ?_
  refine (hquiet (syncPrivate_all v top)).bind fun _ _ => ?_
  refine hmono (P := Call.Early) (Q := fun _ => True) ?_ fun _ h => h
  refine (suspendOrStop_early v top).bind fun _ _ => ?_
  refine Prog.All.bind (Q := fun _ => True) (when_all ?_) fun _ _ => when_all ?_
  · refine Prog.All.bind (Q := fun _ => True) (issue_all (by simp [Call.Early])) fun ret _ => ?_
    exact when_all (giveUp_all (early_of_below (undoSourceStage_below v) (by omega)) (by decide))
  · refine (orDo_giveUp_all (act_all (by simp [Call.Early])) hquota (by decide)).bind fun _ _ => ?_
    refine (orDo_giveUp_all (act_all (by simp [Call.Early])) hquota (by decide)).bind fun _ _ => ?_
    exact orDo_giveUp_all (act_all (by simp [Call.Early]))
      (early_of_below (undoCopyQuota_below v) (by omega)) (by decide)

end Early

end Parikshan.CloneManager
