import Parikshan.CloneManager.Transfer
import Parikshan.Machine.Simulation

/-!
# The two nodes are one container

A migration is to be invisible: for the container there are not two nodes but one, on which it goes
on with the memory and the files that it had. Whatever fails, and whenever, the container does not
run on both nodes, and what it has written is there where it is. It is on the destination node while
its copy runs, or if it is stopped and its configuration on the source node is gone, and on the
source node in every other case.

A command that fails has no effect here. An `ssh` that reports a failure when the command on the
other node has done its work is not covered.

## Main definitions

* `Container`, `container`: one container, and what happens to it.
* `World.Moved`, `World.Holds`: where the container is.
* `Follows`: what is guaranteed of every command.

## Main results

* `vzmigrate_transparent`: the two nodes and the script, with all failures, simulate one container.
-/

namespace Parikshan.CloneManager

variable {M B : Type}

/-! ### One container -/

/-- A container: its memory, if it is known, and its files. -/
structure Container (M B : Type) where
  mem : Option M
  tree : Tree B

/-- What happens to a container: it writes, or its image is rewritten. -/
inductive Change (M B : Type)
  | write (x : Write M B)
  | image (tree : Tree B)

def container (M B : Type) : Machine (Container M B) (Change M B) where
  step c
    | .write (.mem m) => some { c with mem := some m }
    | .write (.disk path b) => some { c with tree := Function.update c.tree path b }
    | .image tree => some { c with tree := tree }

/-- What a label is to the container. The nodes do not matter. -/
def change : (migrator M B).Event ⊕ Node × Write M B → Option (Change M B)
  | .inl ⟨.inl ⟨_, .compact⟩, (o : Option (Tree B))⟩ => o.map .image
  | .inl ⟨.inl ⟨_, .snapshot⟩, (o : Option (Tree B × String))⟩ => o.map fun x => .image x.1
  | .inl _ => none
  | .inr (_, x) => some (.write x)

namespace World

/-- The container runs on one node at most. -/
def Alone (w : World M B) : Prop := w.src.run = .running → w.dst.run ≠ .running

/-- The container is on the destination node: it runs there, or it is stopped and its configuration
on the source node is gone. -/
def Moved (w : World M B) : Prop :=
  w.dst.run = .running ∨ w.src.exist = false ∧ w.src.run = .stopped

/-- The container as it is on the node on which it counts as being. Its memory outlives a live
migration only. -/
structure Holds (live : Bool) (w : World M B) (c : Container M B) : Prop where
  moved : w.Moved → c.tree = w.dst.tree ∧ (live = true → c.mem = w.dst.mem)
  here : ¬ w.Moved → c.tree = w.src.tree ∧ (live = true → c.mem = some w.src.mem)

variable {w w' : World M B} {live : Bool} {c : Container M B}

theorem Holds.of_eq (h : w.Holds live c) (hsrc : w'.src = w.src) (hdst : w'.dst = w.dst) :
    w'.Holds live c := by
  obtain ⟨hmoved, hhere⟩ := h
  unfold Moved at hmoved hhere
  rw [← hsrc, ← hdst] at hmoved hhere
  exact ⟨hmoved, hhere⟩

theorem holds_start (hexist : w.src.exist = true) (hdst : w.dst.run = .stopped) :
    w.Holds live ⟨some w.src.mem, w.src.tree⟩ := by
  refine ⟨fun h => ?_, fun _ => ⟨rfl, fun _ => rfl⟩⟩
  rcases h with h | ⟨h, -⟩
  · cases hdst.symm.trans h
  · cases hexist.symm.trans h

end World

/-- What is guaranteed of a command: it lets the container run on one node at most, and does to it
what its label says. -/
def Follows (live : Bool) (w : World M B) (e : (migrator M B).Event) (w' : World M B) : Prop :=
  w'.Alone ∧ ∀ c, w.Holds live c →
    ∃ c', (container M B).run c (change (.inl e)).toList = some c' ∧ w'.Holds live c'

section Follows

variable {live : Bool} {w w' : World M B}

/-- A command that is nothing to the container. -/
theorem Follows.silent {e : (migrator M B).Event} (he : change (.inl e) = none) (halone : w'.Alone)
    (h : ∀ c, w.Holds live c → w'.Holds live c) : Follows live w e w' := by
  refine ⟨halone, fun c hc => ⟨c, ?_, h c hc⟩⟩
  rw [he]
  rfl

/-! ### While the copy does not run -/

theorem Home.not_moved (h : Home w) : ¬ w.Moved := by
  rintro (hrun | ⟨hexist, -⟩)
  · exact h.dst hrun
  · cases h.exist.symm.trans hexist

theorem Home.alone (h : Home w) : w.Alone := fun _ => h.dst

theorem Home.holds (h : Home w) {c : Container M B} :
    w.Holds live c ↔ c.tree = w.src.tree ∧ (live = true → c.mem = some w.src.mem) :=
  ⟨fun hc => hc.here h.not_moved, fun hc => ⟨fun hm => absurd hm h.not_moved, fun _ => hc⟩⟩

/-- The memory and the files of the container change only when its image is rewritten. -/
theorem Home.follows (h : Home w) {e : Call} (he : e.Dormant) {o : e.cmd.Out B}
    (hx : e.cmd.exec o w = some w') : Follows live w ⟨.inl e, o⟩ w' := by
  have h' := h.exec he hx
  have hkeep (hchange : change (M := M) (.inl ⟨.inl e, o⟩) = none)
      (hmem : w'.src.mem = w.src.mem) (htree : w'.src.tree = w.src.tree) :
      Follows live w ⟨.inl e, o⟩ w' := by
    refine .silent hchange h'.alone fun c hc => h'.holds.mpr ?_
    rw [hmem, htree]
    exact h.holds.mp hc
  obtain ⟨i, c⟩ := e
  cases c with
  | compact =>
    obtain rfl := Option.some.inj hx
    cases o with
    | none => exact hkeep rfl rfl rfl
    | some tree =>
      refine ⟨h'.alone, fun c hc => ⟨{ c with tree := tree }, rfl, h'.holds.mpr ⟨rfl, ?_⟩⟩⟩
      exact (h.holds.mp hc).2
  | snapshot =>
    obtain rfl := Option.some.inj hx
    cases o with
    | none => exact hkeep rfl rfl rfl
    | some x =>
      refine ⟨h'.alone, fun c hc => ⟨{ c with tree := x.1 }, rfl, h'.holds.mpr ⟨rfl, ?_⟩⟩⟩
      exact (h.holds.mp hc).2
  | act a =>
    obtain rfl := Option.some.inj hx
    cases o with
    | false => exact hkeep rfl rfl rfl
    | true => exact hkeep rfl (by cases a <;> rfl) (by cases a <;> rfl)
  | _ =>
    rcases Cmd.exec_cases hx with rfl | ⟨a, hc, -⟩ | ⟨pid, owner, -, rfl⟩ | ⟨tree, top, hc, -⟩ |
      ⟨exclude, tree, -, rfl⟩ | ⟨feedback, freeze, top, tree, -, rfl⟩
    · exact hkeep rfl rfl rfl
    · cases hc
    · exact hkeep rfl rfl rfl
    · rcases hc with hc | hc <;> cases hc
    · exact hkeep rfl rfl rfl
    · exact hkeep rfl rfl rfl

end Follows

/-! ### Guarantees -/

section Guarantees

variable {α : Type} {live : Bool} {P : World M B → Prop} {v : Vars}

variable (M B) in
/-- Guarantees of the script, whatever the outcomes of its commands. -/
abbrev MoveDoes (live : Bool) (P : World M B → Prop) (p : Migration α) : Prop :=
  (migrator M B).Guarantee writeAt (fun _ _ => True) (Follows live) P p

/-- What the two scripts have in common is judged by itself. -/
theorem shared_does {p : Script α}
    (hp : (vzctl M B).Guarantee writeAt (fun _ _ => True)
      (fun w e w' => Follows live w ⟨.inl e.1, e.2⟩ w') P p) : MoveDoes M B live P (shared p) :=
  hp.lift (fun _ _ _ _ => trivial) fun _ _ _ _ h => h

theorem shared_spec {Q : α → World M B → Prop} {p : Script α} (hp : MoveSpec M B P p Q) :
    (migrator M B).Triple writeAt (fun _ _ => True) P (shared p) Q fun _ _ => True :=
  hp.lift fun _ _ _ _ => trivial

theorem dormant_does {p : Script α} {V : α → Prop} {X : ℕ → Prop} (hp : p.All Call.Dormant V X) :
    (vzctl M B).Guarantee writeAt (fun _ _ => True)
      (fun w e w' => Follows live w ⟨.inl e.1, e.2⟩ w') Home p :=
  Shell.Guarantee.of_all hp Home.stable fun _ hc _ _ _ hw _ hx =>
    ⟨hw.follows hc hx, hw.exec hc hx⟩

/-! ### When the copy runs -/

/-- The copy runs, and the source container does not. -/
structure Away (w : World M B) : Prop where
  dst : w.dst.run = .running
  src : w.src.run ≠ .running

theorem Away.stable : Stable writeAt (Away (M := M) (B := B)) := by
  rintro ⟨node, x⟩ w w' h hx
  cases node with
  | src => exact absurd (write_cases hx).1 h.src
  | dst =>
    simp only [writeAt, writeDst, if_pos h.dst] at hx
    cases x <;> obtain rfl := Option.some.inj hx <;> exact ⟨h.dst, h.src⟩

theorem Away.holds {w : World M B} (h : Away w) {c : Container M B} :
    w.Holds live c ↔ c.tree = w.dst.tree ∧ (live = true → c.mem = w.dst.mem) :=
  ⟨fun hc => hc.moved (.inl h.dst), fun hc => ⟨fun _ => hc, fun hn => absurd (.inl h.dst) hn⟩⟩

/-- The commands at the end of the script. -/
def Late : Call ⊕ Cleanup → Prop
  | .inl c => c.cmd = .catLock ∨ ∃ a, c.cmd = .act a ∧
      (a = .rmLock ∨ a = .umount ∨ a = .rmDump ∨ a = .rmDstDump)
  | .inr _ => True

/-- None of them touches the copy, or makes the source container run. -/
theorem Late.exec {w w' : World M B} {e : Call ⊕ Cleanup} (he : Late e)
    {o : (migrator M B).Out e} (hx : (migrator M B).exec e o w = some w') :
    change (M := M) (.inl ⟨e, o⟩) = none ∧ (w.src.run ≠ .running → w'.src.run ≠ .running) ∧
      w'.dst.run = w.dst.run ∧ w'.dst.mem = w.dst.mem ∧ w'.dst.tree = w.dst.tree := by
  have hkill {r : Run} (hr : r ≠ .running) : r.kill ≠ .running := by
    cases r <;> simp_all [Run.kill]
  match e, o with
  | .inl ⟨i, c⟩, o =>
    rcases he with rfl | ⟨a, rfl, ha⟩
    · obtain ⟨hsrc, hdst⟩ := Cmd.Looks.exec (c := .catLock) trivial hx
      exact ⟨rfl, hsrc ▸ id, congrArg Dest.run hdst, congrArg Dest.mem hdst,
        congrArg Dest.tree hdst⟩
    · obtain rfl := Option.some.inj hx
      cases o with
      | false => exact ⟨rfl, id, rfl, rfl, rfl⟩
      | true =>
        rcases ha with rfl | rfl | rfl | rfl
        · exact ⟨rfl, id, rfl, rfl, rfl⟩
        · exact ⟨rfl, umount_ne_running.mpr, rfl, rfl, rfl⟩
        · exact ⟨rfl, id, rfl, rfl, rfl⟩
        · exact ⟨rfl, id, rfl, rfl, rfl⟩
  | .inr .kill, o =>
    obtain rfl := Option.some.inj hx
    cases o with
    | false => exact ⟨rfl, id, rfl, rfl, rfl⟩
    | true => exact ⟨rfl, hkill, rfl, rfl, rfl⟩
  | .inr .moveConf, o =>
    obtain rfl := Option.some.inj hx
    cases o <;> exact ⟨rfl, id, rfl, rfl, rfl⟩
  | .inr .destroy, o =>
    change Cleanup.exec .destroy o w = some w' at hx
    simp only [Cleanup.exec] at hx
    split_ifs at hx <;> obtain rfl := Option.some.inj hx <;> exact ⟨rfl, id, rfl, rfl, rfl⟩

theorem Away.late {w w' : World M B} (h : Away w) {e : Call ⊕ Cleanup} (he : Late e)
    {o : (migrator M B).Out e} (hx : (migrator M B).exec e o w = some w') : Away w' := by
  obtain ⟨-, hsrc, hrun, -⟩ := he.exec hx
  exact ⟨hrun.trans h.dst, hsrc h.src⟩

theorem Away.exec {w w' : World M B} (h : Away w) {e : Call ⊕ Cleanup} (he : Late e)
    {o : (migrator M B).Out e} (hx : (migrator M B).exec e o w = some w') :
    Follows live w ⟨e, o⟩ w' ∧ Away w' := by
  have h' := h.late he hx
  obtain ⟨hchange, -, -, hmem, htree⟩ := he.exec hx
  refine ⟨.silent hchange (fun hr => absurd hr h'.src) fun c hc => h'.holds.mpr ?_, h'⟩
  rw [hmem, htree]
  exact h.holds.mp hc

theorem late_does {p : Migration α} {V : α → Prop} {X : ℕ → Prop} (hp : p.All Late V X) :
    MoveDoes M B live Away p :=
  Shell.Guarantee.of_all hp Away.stable fun _ hc _ _ _ hw _ hx => hw.exec hc hx

theorem late_spec {p : Migration α} {V : α → Prop} {X : ℕ → Prop} (hp : p.All Late V X) :
    (migrator M B).Triple writeAt (fun _ _ => True) Away p (fun _ => Away) fun _ _ => True :=
  (Shell.Triple.of_all hp Away.stable fun _ hc _ _ _ hw _ hx => hw.late hc hx).conseq
    (fun _ h => h) (fun _ _ h => h.2) fun _ _ _ => trivial

/-- Killing the container once the copy runs. -/
theorem killing_late {E : ℕ → Prop} : (clean .kill >>= fun _ =>
    shared (Prog.ignore (act .umount)) >>= fun _ => shared (Prog.ignore (act .rmDump)) >>= fun _ =>
    shared (Prog.ignore (act .rmDstDump))).All Late (fun _ => True) E := by
  have hact {a : Action} (ha : a = .rmLock ∨ a = .umount ∨ a = .rmDump ∨ a = .rmDstDump) :
      (shared (Prog.ignore (act a))).All Late (fun _ => True) E :=
    Prog.All.lift (ignore_all (act_all (.inr ⟨a, rfl, ha⟩)))
  refine Prog.All.bind (Q := fun _ => True) ⟨trivial, fun _ => trivial⟩ fun _ _ => ?_
  exact (hact (by simp)).bind fun _ _ => (hact (by simp)).bind fun _ _ => hact (by simp)

theorem undoLock_late (pid : ℕ) {E : ℕ → Prop} :
    (shared (undoLock pid)).All Late (fun _ => True) E := by
  refine Prog.All.lift ((undoLock_lock pid).mono ?_ (fun _ h => h) fun _ h => h)
  rintro ⟨i, c⟩ (hc | hc)
  · exact .inl hc
  · exact .inr ⟨.rmLock, hc, .inl rfl⟩

/-- The script ends with success. -/
theorem finish_late (removeArea : Bool) (v : Vars) :
    (finish removeArea v).All Late (fun _ => True) (· = 0) := by
  refine Prog.All.bind (Q := fun _ => True) ⟨trivial, fun _ => trivial⟩ fun _ _ => ?_
  exact (undoLock_late v.pid).bind fun _ _ => Eq.refl 0

/-! ### The copy takes over -/

/-- The copy is what the container is. -/
structure Same (live : Bool) (w : World M B) : Prop extends Home w where
  still : w.src.run ≠ .running
  tree : w.dst.tree = w.src.tree
  mem : live = true → w.dst.mem = some w.src.mem

theorem Same.stable : Stable writeAt (Same (M := M) (B := B) live) :=
  stable_of_not_running fun _ h => ⟨h.toHome, h.still⟩

variable (M B live) in
/-- Resuming or starting the copy. -/
theorem runs_does {a : Action} (ha : a = .dstResume ∨ a = .dstStart) {q : Script Unit} {n : ℕ}
    (hq : q.All Call.Dormant (fun _ => True) fun _ => True) :
    MoveDoes M B live (Same live) (shared ((act a).orDo (giveUp q n))) ∧
      (migrator M B).Triple writeAt (fun _ _ => True) (Same live)
        (shared ((act a).orDo (giveUp q n))) (fun _ => Away) fun _ _ => True := by
  have heffect {w : World M B} (h : Same live w) : Away (a.effect w) ∧
      Follows live w ⟨.inl ⟨.main, .act a⟩, true⟩ (a.effect w) := by
    have haway : Away (a.effect w) := by
      rcases ha with rfl | rfl <;> exact ⟨rfl, h.still⟩
    refine ⟨haway, .silent rfl (fun hr => absurd hr haway.src) fun c hc => haway.holds.mpr ?_⟩
    obtain ⟨htree, hmem⟩ := h.toHome.holds.mp hc
    have hrest : (a.effect w).dst.tree = w.src.tree ∧
        (live = true → (a.effect w).dst.mem = some w.src.mem) := by
      rcases ha with rfl | rfl <;> exact ⟨h.tree, h.mem⟩
    exact ⟨htree.trans hrest.1.symm, fun hl => (hmem hl).trans (hrest.2 hl).symm⟩
  have hissue : MoveSpec M B (Same live) (act a) fun ok w =>
      (ok = true → Away w) ∧ (ok = false → Home w) := by
    refine command_spec Same.stable
      (fun ok => (Away.stable.imp (ok = true)).and (Home.stable.imp (ok = false))) ?_
    intro (o : Bool) w w' hw hx
    obtain rfl := Option.some.inj hx
    cases o with
    | true => exact ⟨fun _ => (heffect hw).1, fun h => (by cases h)⟩
    | false => exact ⟨fun h => (by cases h), fun _ => hw.toHome⟩
  refine ⟨shared_does (.orDo (.issue Same.stable fun (o : Bool) w w' hw _ hx => ?_) hissue ?_),
    shared_spec (attemptMove_spec Away.stable (hissue.post fun ok w h => h.1))⟩
  · obtain rfl := Option.some.inj hx
    cases o with
    | true => exact (heffect hw).2
    | false => exact .silent rfl hw.toHome.alone fun _ hc => hc
  · exact (dormant_does (giveUp_all (Q := fun _ => True) hq trivial)).pre fun w h => h.2 rfl

variable (M B live) in
/-- A live migration. -/
theorem restoreCopy_does (ho : v.opts.online = true) :
    MoveDoes M B live (fun w => Level v w ∧ Dump v w) (restoreCopy v) ∧
      (migrator M B).Triple writeAt (fun _ _ => True) (fun w => Level v w ∧ Dump v w)
        (restoreCopy v) (fun _ => Away) fun _ _ => True := by
  have hundo := dormant_of_below (undoCopyQuota_below (E := fun _ => True) v) (by omega)
  have hundump := dormant_of_below (undoUndump_below (E := fun _ => True) v) (by omega)
  have hdormant : ((act .undump).orDo (giveUp (undoCopyQuota v) migErrRestoreVps)).All Call.Dormant
      (fun _ => True) fun _ => True :=
    orDo_giveUp_all (act_all (by simp [Call.Dormant])) hundo trivial
  have hrestored : MoveSpec M B (fun w => Level v w ∧ Dump v w)
      ((act .undump).orDo (giveUp (undoCopyQuota v) migErrRestoreVps)) fun _ => Same live :=
    actOrGiveUp_spec (Dump.stable (fun _ h => h.toHome) Level.stable) Same.stable
      fun w h => ⟨⟨fun hr => (by cases hr), h.1.exist⟩, (h.2 ho).1, h.1.level (h.2 ho).1,
        fun _ => (h.2 ho).2⟩
  obtain ⟨hdoes, hspec⟩ := runs_does M B live (n := migErrRestoreVps)
    (.inl rfl) hundump
  have hundumped : MoveDoes M B live (fun w => Level v w ∧ Dump v w)
      (shared ((act .undump).orDo (giveUp (undoCopyQuota v) migErrRestoreVps))) :=
    shared_does ((dormant_does hdormant).pre fun _ h => h.1.toHome)
  have hlate := killing_late (E := fun _ => True)
  exact ⟨hundumped.bind (shared_spec hrestored) fun _ => hdoes.bind hspec fun _ => late_does hlate,
    (shared_spec hrestored).bind fun _ => hspec.bind fun _ => late_spec hlate⟩

/-- The copy runs, or is not to run and has the files of the container. -/
def TakenOver (v : Vars) (live : Bool) (w : World M B) : Prop := Away w ∨ live = false ∧ Level v w

/-- A copy that is started, mounted, or left as it is. -/
theorem startCopy_does (hoff : live = false) :
    MoveDoes M B live (Level v) (shared (startCopy v)) ∧
      (migrator M B).Triple writeAt (fun _ _ => True) (Level v) (shared (startCopy v))
        (fun _ => TakenOver v live) fun _ _ => True := by
  have hundo := dormant_of_below (undoCopyQuota_below (E := fun _ => True) v) (by omega)
  have hstay {a : Action} {n : ℕ} (ha : a = .dstMount ∨ a = .dstQuotaOff) :
      MoveDoes M B live (Level v) (shared ((act a).orDo (giveUp (undoCopyQuota v) n))) ∧
      MoveSpec M B (Level v) ((act a).orDo (giveUp (undoCopyQuota v) n)) fun _ => Level v := by
    have hdormant : (act a).All Call.Dormant (fun _ => True) fun _ => True :=
      act_all (by rcases ha with rfl | rfl <;> simp [Call.Dormant])
    refine ⟨shared_does ((dormant_does (orDo_giveUp_all hdormant hundo trivial)).pre
      fun _ h => h.toHome), actOrGiveUp_spec Level.stable Level.stable fun w h => ?_⟩
    rcases ha with rfl | rfl
    · exact ⟨⟨⟨fun hr => (by cases hr), h.exist⟩, h.layout⟩, h.still, h.level⟩
    · exact ⟨⟨⟨h.dst, h.exist⟩, h.layout⟩, h.still, h.level⟩
  unfold startCopy
  split_ifs with hr hm
  · obtain ⟨hdoes, hspec⟩ := runs_does M B live (n := migErrStartVps)
      (.inr rfl) hundo
    have hsame (w : World M B) (h : Level v w) : Same live w :=
      ⟨h.toHome, h.still hr, h.level (h.still hr), fun hl => by cases hoff.symm.trans hl⟩
    exact ⟨hdoes.pre hsame, (hspec.pre hsame).post fun _ _ h => .inl h⟩
  · exact ⟨(hstay (.inl rfl)).1,
      (shared_spec (hstay (.inl rfl)).2).post fun _ _ h => .inr ⟨hoff, h⟩⟩
  · refine ⟨?_, ?_⟩
    · cases v.diskQuota with
      | true => exact (hstay (.inr rfl)).1
      | false => exact .ret ()
    · refine (shared_spec (Q := fun _ => Level v) ?_).post fun _ _ h => .inr ⟨hoff, h⟩
      exact Shell.Triple.when (fun _ => (hstay (.inr rfl)).2) fun _ =>
        done_spec Level.stable fun _ h => h

/-- **The copy takes over.** -/
theorem takeOver_does (hlive : v.opts.online = live) :
    MoveDoes M B live (fun w => Level v w ∧ Dump v w) (takeOver v) ∧
      (migrator M B).Triple writeAt (fun _ _ => True) (fun w => Level v w ∧ Dump v w)
        (takeOver v) (fun _ => TakenOver v live) fun _ _ => True := by
  unfold takeOver
  split_ifs with ho
  · obtain ⟨hdoes, hspec⟩ := restoreCopy_does M B live ho
    exact ⟨hdoes, hspec.post fun _ _ h => .inl h⟩
  · have hoff : live = false := by simpa [← hlive] using ho
    obtain ⟨hdoes, hspec⟩ := startCopy_does (M := M) (B := B) (v := v) hoff
    exact ⟨hdoes.pre fun _ h => h.1, hspec.pre fun _ h => h.1⟩

/-! ### The end of the script -/

/-- A container that is not to run is gone from the source node at once; one that still runs there,
because its state could not be read, stays where it is. -/
theorem clean_does {c : Cleanup} (hc : c = .destroy ∨ c = .moveConf) (hoff : live = false) :
    MoveDoes M B live (Level v) (clean c) ∧
      (migrator M B).Triple writeAt (fun _ _ => True) (Level v) (clean c)
        (fun _ w => w.dst.run ≠ .running) fun _ _ => True := by
  -- with its configuration gone the container has moved if it is stopped
  have hgone {w w' : World M B} (h : Level v w) (hrun : w'.src.run = w.src.run)
      (hdst : w'.dst = w.dst) (hexist : w'.src.exist = false)
      (htree : w.src.run ≠ .stopped → w'.src.tree = w.src.tree) :
      Follows live w ⟨.inr c, true⟩ w' ∧ w'.dst.run ≠ .running := by
    have hnot : w'.dst.run ≠ .running := hdst ▸ h.dst
    have hmem {P : Prop} (hl : live = true) : P := by cases hoff.symm.trans hl
    refine ⟨.silent (by rcases hc with rfl | rfl <;> rfl) (fun _ => hnot) fun x hx => ?_, hnot⟩
    have hx' := (h.toHome.holds.mp hx).1
    refine ⟨fun hm => ⟨?_, hmem⟩, fun hm => ⟨?_, hmem⟩⟩
    · rcases hm with hm | ⟨-, hstopped⟩
      · exact absurd hm hnot
      · have hne : w.src.run ≠ .running := by rw [← hrun, hstopped]; decide
        rw [hx', hdst, h.level hne]
    · refine hx'.trans (htree fun hstopped => hm (.inr ⟨hexist, hrun.trans hstopped⟩)).symm
  have hexec {o : Bool} {w w' : World M B} (h : Level v w)
      (hx : (migrator M B).exec (.inr c) o w = some w') :
      Follows live w ⟨.inr c, o⟩ w' ∧ w'.dst.run ≠ .running := by
    change Cleanup.exec c o w = some w' at hx
    cases o with
    | false =>
      obtain rfl : w = w' := by rcases hc with rfl | rfl <;> exact Option.some.inj hx
      exact ⟨.silent (by rcases hc with rfl | rfl <;> rfl) h.toHome.alone fun _ hc => hc, h.dst⟩
    | true =>
      rcases hc with rfl | rfl
      · simp only [Cleanup.exec, if_true] at hx
        split_ifs at hx with hstopped
        obtain rfl := Option.some.inj hx
        exact hgone h rfl rfl rfl fun hne => absurd hstopped hne
      · obtain rfl := Option.some.inj hx
        exact hgone h rfl rfl rfl fun _ => rfl
  have hissue : (migrator M B).Triple writeAt (fun _ _ => True) (Level v) (Prog.issue (.inr c))
      (fun _ w => w.dst.run ≠ .running) fun _ _ => True :=
    Shell.Triple.issue Level.stable (fun _ => stable_idle) fun _ _ _ hw _ hx => (hexec hw hx).2
  refine ⟨?_, hissue.ignore fun _ => Shell.Triple.ret stable_idle fun _ h => h⟩
  exact Shell.Guarantee.bind
    (Shell.Guarantee.issue Level.stable fun _ _ _ hw _ hx => (hexec hw hx).1) hissue
    fun _ => Shell.Guarantee.ret ()

/-- To release the lock is nothing to the container. -/
theorem undoLock_does (pid : ℕ) :
    MoveDoes M B live (fun w => w.dst.run ≠ .running) (shared (undoLock pid)) := by
  refine shared_does (Shell.Guarantee.of_all (undoLock_looks (E := fun _ => True) pid)
    stable_idle ?_)
  rintro ⟨i, c⟩ hc o w w' hw - hx
  obtain ⟨hsrc, hdst⟩ := Cmd.Looks.exec hc hx
  have hnot : w'.dst.run ≠ .running := hdst ▸ hw
  refine ⟨.silent ?_ (fun _ => hnot) fun _ h => h.of_eq hsrc hdst, hnot⟩
  cases c with
  | compact => exact hc.elim
  | snapshot => exact hc.elim
  | _ => rfl

theorem finish_does (removeArea : Bool) :
    MoveDoes M B live (TakenOver v live) (finish removeArea v) := by
  intro w hw
  rcases hw with hw | ⟨hoff, hw⟩
  · exact late_does (finish_late removeArea v) w hw
  · have hclean := clean_does (M := M) (B := B) (v := v)
      (c := if removeArea then .destroy else .moveConf) (by cases removeArea <;> simp) hoff
    refine Shell.Guarantee.bind hclean.1 hclean.2 (fun _ => ?_) w hw
    exact (undoLock_does v.pid).bind (Q := fun _ _ => True) (E := fun _ _ => True)
      (Shell.Triple.of_true _) fun _ => .exit 0

variable (M B) in
/-- **What the script does to the container**, from when it is on the source node alone. -/
theorem vzmigrate_does (pid : ℕ) (removeArea : Bool) (o : Options) (conf : Conf) :
    MoveDoes M B o.online Home (vzmigrate pid removeArea o conf) := by
  have hsetUp : MoveDoes M B o.online Home (shared (setUp pid o conf)) :=
    shared_does (dormant_does (dormant_of_early (setUp_early pid o conf)))
  refine hsetUp.bind (shared_spec (setUp_spec pid o conf)) fun v => ?_
  refine Shell.Guarantee.of_pure (fun _ h => h.1) fun ⟨hopts, hrun⟩ => ?_
  refine Shell.Guarantee.pre (P := Before v) ?_ fun _ h => h.2
  have htransfer : MoveDoes M B o.online (Before v) (shared (transfer v)) :=
    shared_does ((dormant_does (dormant_of_early (transfer_early v))).pre fun _ h => h.toHome)
  refine htransfer.bind (shared_spec (transfer_spec hrun)) fun _ => ?_
  obtain ⟨hdoes, hspec⟩ := takeOver_does (M := M) (B := B) (v := v) (congrArg Options.online hopts)
  exact hdoes.bind hspec fun _ => finish_does removeArea

end Guarantees

/-! ### Simulation -/

section Simulation

variable {live : Bool}

/-- The two nodes with the script, and one container. -/
def Simulates (live : Bool) (s : Migration Unit × World M B) (c : Container M B) : Prop :=
  (migrator M B).does writeAt (fun _ _ => True) (Follows live) s.1 s.2 ∧
    s.2.Alone ∧ s.2.Holds live c

/-- A write of the container, on whatever node it runs. -/
theorem write_follows {w w' : World M B} {c : Container M B} {node : Node} {x : Write M B}
    (halone : w.Alone) (hc : w.Holds live c) (hx : writeAt (node, x) w = some w') :
    w'.Alone ∧ ∃ c', (container M B).step c (.write x) = some c' ∧ w'.Holds live c' := by
  cases node with
  | src =>
    have hrun := (write_cases hx).1
    have hnot {u : World M B} (hu : u.src.run = .running) (hd : u.dst.run ≠ .running) :
        ¬ u.Moved := by
      rintro (h | ⟨-, h⟩)
      · exact hd h
      · cases hu.symm.trans h
    obtain ⟨htree, hmem⟩ := hc.here (hnot hrun (halone hrun))
    cases x with
    | mem m =>
      obtain rfl := Option.some.inj ((if_pos hrun).symm.trans hx)
      refine ⟨halone, { c with mem := some m }, rfl, fun h => absurd h (hnot hrun (halone hrun)),
        fun _ => ⟨htree, fun _ => rfl⟩⟩
    | disk path b =>
      change (if w.src.Writes path then _ else _) = some w' at hx
      split_ifs at hx
      obtain rfl := Option.some.inj hx
      refine ⟨halone, { c with tree := Function.update c.tree path b }, rfl,
        fun h => absurd h (hnot hrun (halone hrun)), fun _ => ⟨?_, hmem⟩⟩
      exact congrArg (Function.update · path b) htree
  | dst =>
    change writeDst x w = some w' at hx
    by_cases hrun : w.dst.run = .running
    · obtain ⟨htree, hmem⟩ := hc.moved (.inl hrun)
      unfold writeDst at hx
      rw [if_pos hrun] at hx
      cases x with
      | mem m =>
        obtain rfl := Option.some.inj hx
        exact ⟨halone, { c with mem := some m }, rfl, fun _ => ⟨htree, fun _ => rfl⟩,
          fun h => absurd (.inl hrun) h⟩
      | disk path b =>
        obtain rfl := Option.some.inj hx
        exact ⟨halone, { c with tree := Function.update c.tree path b }, rfl,
          fun _ => ⟨congrArg (Function.update · path b) htree, hmem⟩, fun h => absurd (.inl hrun) h⟩
    · simp only [writeDst, if_neg hrun] at hx
      cases hx

theorem simulates_step {s t : Migration Unit × World M B} {c : Container M B}
    {a : (migrator M B).Event ⊕ Node × Write M B} (h : Simulates live s c)
    (hstep : ((migrator M B).machine writeAt).step s a = some t) :
    ∃ c', (container M B).run c (change a).toList = some c' ∧ Simulates live t c' := by
  obtain ⟨hdoes, halone, hholds⟩ := h
  have hgiven : Shell.Triple.Given (fun _ _ => True) s a := by cases a <;> trivial
  obtain ⟨hdoes', ⟨e, rfl, halone', hfollows⟩ | ⟨⟨node, x⟩, rfl, hx⟩⟩ :=
    Shell.does_step hdoes hgiven hstep
  · obtain ⟨c', hc', hholds'⟩ := hfollows c hholds
    exact ⟨c', hc', hdoes', halone', hholds'⟩
  · obtain ⟨halone', c', hc', hholds'⟩ := write_follows halone hholds hx
    exact ⟨c', (Machine.run_cons_eq_some _).mpr ⟨c', hc', rfl⟩, hdoes', halone', hholds'⟩

theorem simulation : Machine.Simulation ((migrator M B).machine writeAt) (container M B) change
    (Simulates (M := M) (B := B) live) where
  hidden h ha hstep := by
    obtain ⟨c', hc', h'⟩ := simulates_step h hstep
    rw [ha] at hc'
    obtain rfl := Option.some.inj hc'
    exact h'
  visible h ha hstep := by
    obtain ⟨c', hc', h'⟩ := simulates_step h hstep
    rw [ha] at hc'
    obtain ⟨c'', hc'', hend⟩ := (Machine.run_cons_eq_some _).mp hc'
    obtain rfl := Option.some.inj hend
    exact ⟨_, hc'', h'⟩

end Simulation

/-- **A migration is invisible.** In every run of the script on a container that is on the source
node only, finished or not, whatever the options, the layout of the disk and the outcomes of the
commands, and whatever the container writes meanwhile on the node on which it runs: it runs on one
of the nodes at most, and it is what all its writes have made of it. While it runs on the source
node its memory and its files are those; from when it runs on the destination node the files there
are, and after a live migration its memory there; when it does not run, its files are those on the
destination node if it is stopped and its configuration on the source node is gone, and else those
on the source node. Commands that fail have no effect. -/
theorem vzmigrate_transparent {pid : ℕ} {removeArea : Bool} {o : Options} {conf : Conf}
    {w : World M B} {s : Migration Unit × World M B}
    {as : List ((migrator M B).Event ⊕ Node × Write M B)} (hexist : w.src.exist = true)
    (hdst : w.dst.run = .stopped)
    (hrun : ((migrator M B).machine writeAt).run (vzmigrate pid removeArea o conf, w) as = some s) :
    s.2.Alone ∧ ∃ c, (container M B).run ⟨some w.src.mem, w.src.tree⟩ (as.filterMap change) =
      some c ∧ s.2.Holds o.online c := by
  have hhome : Home w := ⟨by rw [hdst]; decide, hexist⟩
  obtain ⟨c, hc, -, halone, hholds⟩ := simulation.run (u := ⟨some w.src.mem, w.src.tree⟩)
    ⟨vzmigrate_does M B pid removeArea o conf w hhome, hhome.alone, World.holds_start hexist hdst⟩
    hrun
  exact ⟨halone, c, hc, hholds⟩

/-- Everything goes well. -/
def migrates : (c : Call ⊕ Cleanup) → World ℕ ℕ → Option ((migrator ℕ ℕ).Out c)
  | .inl c, w => some (c.cmd.usual w)
  | .inr _, _ => some true

/-- A live migration of a container on a `ploop` image. -/
def migratedRun : List (migrator ℕ ℕ).Event × Migration Unit × World ℕ ℕ :=
  (migrator ℕ ℕ).play migrates
    (vzmigrate 1 true { online := true, snapshot := true } { priv := "/vz/private" })
    (.start .running true 1 fun _ => some 0)

/-- The container writes to its memory before it, and again on the destination node. -/
def migratedLabels : List ((migrator ℕ ℕ).Event ⊕ Node × Write ℕ ℕ) :=
  .inr (.src, .mem 1) :: (migratedRun.1.map .inl ++ [.inr (.dst, .mem 2)])

theorem vzmigrate_transparent_live : ∃ (w : World ℕ ℕ) (c : Container ℕ ℕ),
    w.dst.run = .running ∧ w.src.exist = false ∧ w.Alone ∧ c.mem = some 2 ∧
      (container ℕ ℕ).run ⟨some 0, fun _ => some 0⟩ (migratedLabels.filterMap change) = some c := by
  have hrun : ((migrator ℕ ℕ).machine writeAt).run
      (vzmigrate 1 true { online := true, snapshot := true } { priv := "/vz/private" },
        .start .running true 0 fun _ => some 0) migratedLabels =
      some (.exit 0,
        { migratedRun.2.2 with dst := { migratedRun.2.2.dst with mem := some 2 } }) := by
    refine (Machine.run_cons_eq_some _).mpr ⟨_, rfl, ?_⟩
    refine (Machine.run_append_eq_some _).mpr ⟨_, Shell.run_play writeAt _ _, ?_⟩
    rfl
  obtain ⟨halone, c, hc, hholds⟩ := vzmigrate_transparent rfl rfl hrun
  exact ⟨_, c, rfl, rfl, halone, (hholds.moved (.inl rfl)).2 rfl, hc⟩

end Parikshan.CloneManager
