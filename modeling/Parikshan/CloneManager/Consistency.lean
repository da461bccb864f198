import Parikshan.CloneManager.Stages

/-!
# The clone is one instant of the container

With `--live` the container goes on writing to its memory and its files until it is suspended. What
has been copied before that is out of date, and the files that were changing may be in any state.
The files of a plain private area are copied again while the container is suspended. Of a `ploop`
image only the top delta changes; it is left out of the first `rsync`, and `ploop copy` delivers it
as it is when its freeze command suspends the container. The memory is dumped after that. So when
the copy is resumed it has the memory and the files that the container had at one instant.

## Main definitions

* `Instants`: the instants at which the container has been suspended, and what the copy has been
  resumed with.
* `Cmd.Succeeds`: a command succeeds.
* `Consistent`: there is one instant, and the copy has been resumed with it.

## Main results

* `live_clone_consistent`: so it is in every run in which all commands succeed.
-/

namespace Parikshan.CloneManager

variable {M B : Type}

/-! ### Instants -/

/-- The memory and the files of the container when it was suspended, the latest instant first, and
what the copy has been resumed with. -/
structure Instants (M B : Type) where
  suspended : List (M × Tree B) := []
  resumed : Option (Option M × Tree B) := none

def Instants.suspend (h : Instants M B) (w : World M B) : Instants M B :=
  { h with suspended := (w.src.mem, w.src.tree) :: h.suspended }

def Instants.record (w : World M B) (e : (vzctl M B).Event) (h : Instants M B) : Instants M B :=
  match e with
  | ⟨⟨_, .act .suspend⟩, (o : Bool)⟩ => if o then h.suspend w else h
  | ⟨⟨_, .ploopCopy _ .suspend _⟩, (o : Copied)⟩ => if o = .early then h else h.suspend w
  | ⟨⟨_, .act .dstResume⟩, (o : Bool)⟩ =>
    if o then { h with resumed := some (w.dst.mem, w.dst.tree) } else h
  | _ => h

/-- **Consistency.** The container has been suspended once, and the copy has been resumed with the
memory and the files of that instant. -/
def Consistent (h : Instants M B) : Prop :=
  ∃ mem tree, h.suspended = [(mem, tree)] ∧ h.resumed = some (some mem, tree)

/-! ### Success of all commands -/

/-- A check turns out so that the script goes on. -/
def Query.Passes : Query → Bool → Prop
  | .dstExists, o | .ipInUse, o => o = false
  | .vzconf, o | .connect, o | .vzRunning, o | .cpt, o | .rst, o | .dstCptVersion, o | .cpuFlags, o
  | .dstIpv6, o | .ploopGetdev, o | .blockDev, o | .topDelta, o => o = true
  | _, _ => True

/-- A command succeeds. The first `rsync` may find that files have vanished. -/
def Cmd.Succeeds : (c : Cmd) → c.Out B → Prop
  | .query q, o => q.Passes o
  | .act _, (o : Bool) => o = true
  | .source _, (o : Bool) => o = true
  | .lock _, (o : Created) => o = .ok
  | .status, (o : Status) => o ≠ {}
  | .remoteConf, (o : RemoteConf) => o.root ≠ "" ∧ o.priv ≠ ""
  | .applyConfig, (o : ℕ) => o = 0 ∨ o = 20 ∨ o = 21
  | .ploopInfo, (o : Option String) => o.isSome = true
  | .compact, (o : Option (Tree B)) => o.isSome = true
  | .snapshot, (o : Option (Tree B × String)) => o.isSome = true
  | .rsync1 _, (o : ℕ × Tree B) => o.1 = 0 ∨ o.1 = 24
  | .rsync2, (o : ℕ × Tree B) => o.1 = 0
  | .ploopCopy _ _ _, (o : Copied) => o = .ok
  | .testLock, _ | .catLock, _ | .testDdxml, _ | .remoteLink, _ | .ploopFeedback, _ => True

/-- All commands succeed. -/
def AllSucceed (_ : World M B) (e : (vzctl M B).Event) : Prop := e.1.cmd.Succeeds e.2

/-! ### Assertions -/

/-- While the container runs: nothing has been suspended yet. -/
structure Live (ploop : Bool) (x : World M B × Instants M B) : Prop where
  run : x.1.src.run = .running
  layout : x.1.src.ploop = ploop
  hist : x.2 = {}

/-- The name of the top delta has been read. -/
structure Located (ploop : Bool) (top : String) (x : World M B × Instants M B) : Prop
    extends Live ploop x where
  located : ploop = true → x.1.src.top = top

/-- The lower deltas have been copied. -/
structure Synced (ploop : Bool) (top : String) (x : World M B × Instants M B) : Prop
    extends Located ploop top x where
  lower : ploop = true → ∀ path ≠ top, x.1.dst.tree path = x.1.src.tree path

/-- The container has been suspended, and the image has been copied. -/
structure Suspended (ploop : Bool) (x : World M B × Instants M B) : Prop where
  run : x.1.src.run = .frozen
  layout : x.1.src.ploop = ploop
  hist : x.2 = ({} : Instants M B).suspend x.1
  image : ploop = true → x.1.dst.tree = x.1.src.tree

/-- The memory has been dumped and the dump been copied. -/
structure Dumped (ploop : Bool) (x : World M B × Instants M B) : Prop
    extends Suspended ploop x where
  dump : x.1.dst.dump = some x.1.src.mem

section Stable

variable {ploop : Bool} {top : String}

/-- A container that is suspended writes nothing. -/
theorem stable_of_frozen {P : World M B × Instants M B → Prop}
    (hP : ∀ x, P x → x.1.src.run = .frozen) : Stable (Shell.trackEnv write) P := by
  rintro n ⟨w, t⟩ x h hx
  obtain ⟨w', hw', rfl⟩ := Option.map_eq_some_iff.mp hx
  have hrun := (write_cases hw').1
  rw [hP _ h] at hrun
  cases hrun

theorem Live.stable : Stable (Shell.trackEnv write) (Live (M := M) (B := B) ploop) := by
  rintro n ⟨w, t⟩ x h hx
  obtain ⟨w', hw', rfl⟩ := Option.map_eq_some_iff.mp hx
  obtain ⟨-, ⟨m, rfl⟩ | ⟨path, b, -, rfl⟩⟩ := write_cases hw'
  · exact ⟨h.run, h.layout, h.hist⟩
  · exact ⟨h.run, h.layout, h.hist⟩

theorem Located.stable : Stable (Shell.trackEnv write) (Located (M := M) (B := B) ploop top) := by
  rintro n ⟨w, t⟩ x h hx
  have hlive := Live.stable n _ _ h.toLive hx
  obtain ⟨w', hw', rfl⟩ := Option.map_eq_some_iff.mp hx
  obtain ⟨-, ⟨m, rfl⟩ | ⟨path, b, -, rfl⟩⟩ := write_cases hw'
  · exact ⟨hlive, h.located⟩
  · exact ⟨hlive, h.located⟩

/-- The container writes to the top delta only. -/
theorem Synced.stable : Stable (Shell.trackEnv write) (Synced (M := M) (B := B) ploop top) := by
  rintro n ⟨w, t⟩ x h hx
  have hlocated := Located.stable n _ _ h.toLocated hx
  obtain ⟨w', hw', rfl⟩ := Option.map_eq_some_iff.mp hx
  obtain ⟨-, ⟨m, rfl⟩ | ⟨path, b, hpath, rfl⟩⟩ := write_cases hw'
  · exact ⟨hlocated, h.lower⟩
  · refine ⟨hlocated, fun hp path' hne => ?_⟩
    have htop : path = top := (hpath (h.layout.trans hp)).trans (h.located hp)
    simp only [Function.update_of_ne (htop ▸ hne)]
    exact h.lower hp path' hne

/-- No quiet command does anything about it. -/
theorem Live.quiet {e : Call} (he : e.Quiet) {o : e.cmd.Out B} {w w' : World M B}
    {t : Instants M B} (h : Live ploop (w, t)) (hx : e.cmd.exec o w = some w') :
    Live ploop (w', t.record w ⟨e, o⟩) := by
  obtain ⟨hr, hp, -, -⟩ := Cmd.Quiet.exec he hx
  refine ⟨hr.trans h.run, hp.trans h.layout, Eq.trans ?_ h.hist⟩
  obtain ⟨i, c⟩ := e
  cases c with
  | act a => cases a <;> first | exact he.elim | rfl
  | ploopCopy _ _ _ => exact he.elim
  | _ => rfl

end Stable

/-! ### Rules for commands that succeed -/

section Spec

variable {α : Type}

variable (M B) in
/-- Triples of the script with its instants, if all commands succeed. -/
abbrev CloneSpec (P : World M B × Instants M B → Prop) (p : Script α)
    (Q : α → World M B × Instants M B → Prop) : Prop :=
  ((vzctl M B).track Instants.record).Triple (Shell.trackEnv write)
    (fun x e => AllSucceed x.1 e) P p Q fun n x => n = 0 ∧ Consistent x.2

variable {P K : World M B × Instants M B → Prop}

theorem succeed_spec {i : Issuer} {c : Cmd} {Q : c.Reply → World M B × Instants M B → Prop}
    (hP : Stable (Shell.trackEnv write) P) (hQ : ∀ r, Stable (Shell.trackEnv write) (Q r))
    (h : ∀ o w w' t, P (w, t) → c.Succeeds o → c.exec o w = some w' →
      Q (c.reply B o) (w', t.record w ⟨⟨i, c⟩, o⟩)) :
    CloneSpec M B P (issue i c) Q :=
  Shell.Triple.track_issue (G := AllSucceed) hP hQ h

theorem skip_spec (hP : Stable (Shell.trackEnv write) P) :
    CloneSpec M B P (.ret ()) (fun _ => P) :=
  Shell.Triple.ret hP fun _ h => h

theorem when_spec {b : Bool} {p : Script Unit} (hP : Stable (Shell.trackEnv write) P)
    (hp : CloneSpec M B P p (fun _ => P)) : CloneSpec M B P (Prog.when b p) (fun _ => P) :=
  Shell.Triple.when (fun _ => hp) fun _ => skip_spec hP

/-- What would be done if a step failed does not matter. -/
theorem certain_spec {p : Script Bool} {q : Script Unit}
    (hK : Stable (Shell.trackEnv write) K)
    (hp : CloneSpec M B P p (fun ok x => ok = true ∧ K x)) :
    CloneSpec M B P (p.orDo q) (fun _ => K) :=
  hp.orDo (Shell.Triple.ret ((Stable.const _).and hK) fun _ h => h.2) fun _ h => by cases h.1

theorem check_spec (hP : Stable (Shell.trackEnv write) P) (q : Query) :
    CloneSpec M B P (query q) (fun ok x => q.Passes ok ∧ P x) := by
  refine succeed_spec hP (fun _ => (Stable.const _).and hP) fun o w w' t hw hG hx => ⟨hG, ?_⟩
  obtain rfl := Option.some.inj hx
  exact hw

/-- A check that must turn out well. -/
theorem required_spec (q : Query) (hP : Stable (Shell.trackEnv write) P)
    (hq : ∀ ok, q.Passes ok → ok = true) {r : Script Unit} :
    CloneSpec M B P ((query q).orDo r) (fun _ => P) :=
  certain_spec hP ((check_spec hP q).post fun ok _ h => ⟨hq ok h.1, h.2⟩)

/-- A check that must turn out badly. -/
theorem refused_spec (q : Query) (hP : Stable (Shell.trackEnv write) P)
    (hq : ∀ ok, q.Passes ok → ok = false) {k : Bool → Script α}
    {Q : α → World M B × Instants M B → Prop} (hk : CloneSpec M B P (k false) Q) :
    CloneSpec M B P (query q >>= k) Q := by
  refine (check_spec hP q).bind fun ok => Shell.Triple.of_pure (fun _ h => hq ok h.1) ?_
  rintro rfl
  exact hk.pre fun _ h => h.2

/-- A check that may turn out in either way. -/
theorem free_spec (hP : Stable (Shell.trackEnv write) P) {q : Query} {p : Bool → Script Unit}
    (hp : ∀ ok, CloneSpec M B P (p ok) (fun _ => P)) :
    CloneSpec M B P (query q >>= p) (fun _ => P) :=
  (check_spec hP q).bind fun ok => (hp ok).pre fun _ h => h.2

/-- An action of the main part. -/
theorem action_spec {a : Action} {q : Script Unit} (hP : Stable (Shell.trackEnv write) P)
    (hK : Stable (Shell.trackEnv write) K)
    (h : ∀ w t, P (w, t) → K (a.effect w, t.record w ⟨⟨.main, .act a⟩, true⟩)) :
    CloneSpec M B P ((act a).orDo q) (fun _ => K) := by
  refine certain_spec hK (succeed_spec hP (fun _ => (Stable.const _).and hK) ?_)
  rintro o w w' t hw hG hx
  obtain rfl : o = true := hG
  obtain rfl := Option.some.inj hx
  exact ⟨rfl, h w t hw⟩

/-! ### Until the first `rsync` -/

variable {ploop : Bool} {v : Vars} {top : String}

/-- A quiet action of the main part while the container runs. -/
theorem liveAction_spec {a : Action} (ha : a.Quiet) {q : Script Unit} :
    CloneSpec M B (Live ploop) ((act a).orDo q) (fun _ => Live ploop) :=
  action_spec Live.stable Live.stable fun _ _ h =>
    h.quiet (e := ⟨.main, .act a⟩) (o := true) ha rfl

theorem checkCptProps_spec (pid : ℕ) (o : Options) :
    CloneSpec M B (Live ploop) (checkCptProps pid o) (fun _ => Live ploop) := by
  refine free_spec Live.stable fun version => (when_spec Live.stable ?_).bind fun _ =>
    free_spec Live.stable fun caps => when_spec Live.stable ?_
  · exact required_spec .dstCptVersion Live.stable fun _ h => h
  · exact required_spec .cpuFlags Live.stable fun _ h => h

theorem checkOnline_spec (pid : ℕ) (o : Options) :
    CloneSpec M B (Live ploop) (checkOnline pid o) (fun _ => Live ploop) := by
  refine free_spec Live.stable fun cptcheck => (when_spec Live.stable ?_).bind fun _ =>
    free_spec Live.stable fun ipv6 => when_spec Live.stable ?_
  · exact free_spec Live.stable fun _ => when_spec Live.stable (checkCptProps_spec pid o)
  · exact required_spec .dstIpv6 Live.stable fun _ h => h

theorem checkNodes_spec (pid : ℕ) (o : Options) {status : Status} (hd : status.deleted = false)
    (hr : status.running = true) :
    CloneSpec M B (Live ploop) (checkNodes pid o status) (fun _ => Live ploop) := by
  have hskip := skip_spec (M := M) (B := B) (P := Live ploop) Live.stable
  refine (Shell.Triple.when (fun h => ?_) fun _ => hskip).bind fun _ => ?_
  · simp [hd] at h
  refine (Shell.Triple.when (fun h => ?_) fun _ => hskip).bind fun _ => ?_
  · simp [hr] at h
  refine (required_spec .connect Live.stable fun _ h => h).bind fun _ => ?_
  refine (required_spec .vzRunning Live.stable fun _ h => h).bind fun _ => ?_
  refine (when_spec Live.stable ((required_spec .cpt Live.stable fun _ h => h).bind fun _ =>
    required_spec .rst Live.stable fun _ h => h)).bind fun _ => ?_
  refine refused_spec .dstExists Live.stable (fun _ h => h) ?_
  exact hskip.bind fun _ => when_spec Live.stable (checkOnline_spec pid o)

theorem source_spec (f : Sourced) :
    CloneSpec M B (Live ploop) (source f) (fun _ => Live ploop) := by
  refine certain_spec Live.stable
    (succeed_spec Live.stable (fun _ => (Stable.const _).and Live.stable) ?_)
  exact fun o w w' t hw hG hx => ⟨hG, hw.quiet (e := ⟨.main, .source f⟩) trivial hx⟩

theorem readConf_spec (pid : ℕ) :
    CloneSpec M B (Live ploop) (readConf pid) (fun _ => Live ploop) := by
  refine (source_spec _).bind fun _ => (source_spec _).bind fun _ => ?_
  refine Shell.Triple.bind (Q := fun (remote : RemoteConf) x =>
    (remote.root ≠ "" ∧ remote.priv ≠ "") ∧ Live ploop x) ?_ fun remote => ?_
  · refine succeed_spec Live.stable (fun _ => (Stable.const _).and Live.stable) ?_
    exact fun o w w' t hw hG hx => ⟨hG, hw.quiet (e := ⟨.main, .remoteConf⟩) trivial hx⟩
  · refine Shell.Triple.of_pure (fun _ h => h.1) fun hne => ?_
    refine Shell.Triple.pre (P := Live ploop) ?_ fun _ h => h.2
    refine (source_spec _).bind fun _ => ?_
    refine (Shell.Triple.when (fun h => ?_) fun _ => skip_spec Live.stable).bind fun _ =>
      Shell.Triple.ret Live.stable fun _ h => h
    simp [hne.1, hne.2] at h

theorem testDdxml_spec :
    CloneSpec M B (Live ploop) (run .testDdxml) (fun (o : Bool) x => o = ploop ∧ Live ploop x) := by
  refine succeed_spec Live.stable (fun o : Bool => (Stable.const (o = ploop)).and Live.stable) ?_
  intro (o : Bool) w w' t hw _ hx
  refine ⟨?_, hw.quiet (e := ⟨.main, .testDdxml⟩) trivial hx⟩
  simp only [Cmd.exec] at hx
  split_ifs at hx with ho
  exact ho.trans hw.layout

theorem checkConf_spec (hcheck : v.opts.checkOnly = false) :
    CloneSpec M B (Live ploop) (checkConf v) (fun _ => Live ploop) := by
  refine (when_spec Live.stable (required_spec .ploopGetdev Live.stable fun _ h => h)).bind
    fun _ => ?_
  refine (when_spec Live.stable (refused_spec .ipInUse Live.stable (fun _ h => h)
    (skip_spec Live.stable))).bind fun _ => ?_
  refine Shell.Triple.when (fun h => ?_) fun _ => skip_spec Live.stable
  rw [hcheck] at h
  cases h

theorem copyConf_spec : CloneSpec M B (Live ploop) (copyConf v) (fun _ => Live ploop) := by
  refine (action_spec (a := .scpConf _) Live.stable Live.stable
    fun _ _ h => ⟨h.run, h.layout, h.hist⟩).bind fun _ => ?_
  refine Shell.Triple.ignore (K := fun _ => Live ploop) ?_ fun _ => skip_spec Live.stable
  refine succeed_spec Live.stable (fun _ => Live.stable) fun o w w' t hw hG hx => ?_
  obtain rfl : o = true := hG
  obtain rfl := Option.some.inj hx
  exact ⟨hw.run, hw.layout, hw.hist⟩

theorem prepare_spec : CloneSpec M B (Live ploop) (prepare v) (fun _ => Live ploop) := by
  refine Shell.Triple.bind (Q := fun (ret : ℕ) x => (ret = 0 ∨ ret = 20 ∨ ret = 21) ∧
    Live ploop x) ?_ fun ret => ?_
  · refine succeed_spec Live.stable (fun _ => (Stable.const _).and Live.stable) ?_
    exact fun o w w' t hw hG hx => ⟨hG, hw.quiet (e := ⟨.main, .applyConfig⟩) trivial hx⟩
  refine Shell.Triple.of_pure (fun _ h => h.1) fun hret => ?_
  refine Shell.Triple.pre (P := Live ploop) ?_ fun _ h => h.2
  refine (Shell.Triple.when (fun h => ?_) fun _ => skip_spec Live.stable).bind fun _ => ?_
  · rcases hret with rfl | rfl | rfl <;> simp at h
  refine (when_spec Live.stable (liveAction_spec (by trivial))).bind fun _ => ?_
  refine (when_spec Live.stable (liveAction_spec (by trivial))).bind fun _ => ?_
  refine (liveAction_spec (by trivial)).bind fun _ => ?_
  refine (when_spec Live.stable (liveAction_spec (by trivial))).bind fun _ => ?_
  refine (liveAction_spec (by trivial)).bind fun _ => when_spec Live.stable ?_
  exact (liveAction_spec (by trivial)).bind fun _ => liveAction_spec (by trivial)

theorem compactSnapshot_spec :
    CloneSpec M B (Live ploop) (compactSnapshot v) (fun _ => Live ploop) := by
  refine (when_spec Live.stable (certain_spec Live.stable ?_)).bind fun _ =>
    when_spec Live.stable (certain_spec Live.stable ?_)
  · refine succeed_spec Live.stable (fun _ => (Stable.const _).and Live.stable) ?_
    exact fun o w w' t hw hG hx => ⟨hG, hw.quiet (e := ⟨.main, .compact⟩) trivial hx⟩
  · refine succeed_spec Live.stable (fun _ => (Stable.const _).and Live.stable) ?_
    exact fun o w w' t hw hG hx => ⟨hG, hw.quiet (e := ⟨.main, .snapshot⟩) trivial hx⟩

/-- The top delta that is read after the image has been compacted and a snapshot been taken is the
one to which the container writes until it is suspended. -/
theorem getTopDelta_spec (hp : v.ploop = ploop) (hr : v.status.running = true) :
    CloneSpec M B (Live ploop) (getTopDelta v) (fun top => Located ploop top) := by
  unfold getTopDelta
  rw [hp, hr, Bool.and_true]
  split_ifs with hploop
  · refine Shell.Triple.bind (Q := fun (info : Option String) x =>
      info.elim False fun top => Located ploop top x) ?_ fun info => ?_
    · refine succeed_spec Live.stable ?_ ?_
      · rintro (_ | top)
        · exact Stable.const False
        · exact Located.stable
      · intro (o : Option String) w w' t hw hG hx
        simp only [Cmd.exec] at hx
        split_ifs at hx with ho
        obtain rfl := Option.some.inj hx
        rcases ho with rfl | rfl
        · exact ⟨hw, fun _ => rfl⟩
        · cases hG
    · cases info with
      | none => exact fun _ h => h.elim
      | some top => exact Shell.Triple.ret Located.stable fun _ h => h
  · exact Shell.Triple.ret Live.stable fun _ h => ⟨h, fun h => absurd h hploop⟩

/-! ### From the first `rsync` on -/

theorem syncPrivate_spec (hp : v.ploop = ploop) (hr : v.status.running = true) :
    CloneSpec M B (Located ploop top) (syncPrivate v top) (fun _ => Synced ploop top) := by
  refine Shell.Triple.bind (Q := fun (ret : ℕ) x => (ret = 0 ∨ ret = 24) ∧ Synced ploop top x) ?_
    fun ret => ?_
  · refine succeed_spec Located.stable (fun _ => (Stable.const _).and Synced.stable) ?_
    intro (o : ℕ × Tree B) w w' t hw hG hx
    have hlive := hw.toLive.quiet (e := ⟨.main, .rsync1 _⟩) trivial hx
    have hok : o.1 = 0 ∨ o.1 = 24 := hG
    obtain rfl : w' = w.sync _ o.2 := (Option.some.inj hx).symm.trans (if_pos hok)
    refine ⟨hok, ⟨hlive, hw.located⟩, fun hploop path hne => ?_⟩
    have hwrites : ¬ w.src.Writes path := fun h =>
      hne ((h.2 (hw.layout.trans hploop)).trans (hw.located hploop))
    simp only [World.sync, hp, hploop, hr, Bool.and_self, if_true, Option.some.injEq,
      if_neg hne.symm, if_neg hwrites]
  · refine Shell.Triple.of_pure (fun _ h => h.1) fun hret => ?_
    refine Shell.Triple.pre (P := Synced ploop top) ?_ fun _ h => h.2
    refine (Shell.Triple.when (fun h => ?_) fun _ => skip_spec Synced.stable).bind fun _ => ?_
    · rcases hret with rfl | rfl <;> simp at h
    refine Shell.Triple.track_keep (G := AllSucceed) (vzfsync_all v) Synced.stable ?_
    rintro ⟨i, c⟩ he o w w' t hw _ hw'
    obtain ⟨q, rfl⟩ := he
    obtain rfl := Option.some.inj hw'
    exact hw

theorem Suspended.stable :
    Stable (Shell.trackEnv write) (Suspended (M := M) (B := B) ploop) :=
  stable_of_frozen fun _ h => h.run

theorem Dumped.stable : Stable (Shell.trackEnv write) (Dumped (M := M) (B := B) ploop) :=
  stable_of_frozen fun _ h => h.run

/-- `ploop copy` delivers the top delta as it is when the container is suspended. -/
theorem ploopCopy_suspends :
    CloneSpec M B (Synced ploop top) (ploopCopy .suspend top)
      (fun ok x => ok = true ∧ Suspended ploop x) := by
  refine ploopCopy_triple Query.Passes Synced.stable (check_spec Synced.stable) ?_ ?_ ?_
    fun feedback => ?_
  · refine succeed_spec Synced.stable (fun _ => Synced.stable) fun o w w' t hw hG hx => ?_
    obtain rfl : o = true := hG
    obtain rfl := Option.some.inj hx
    refine ⟨⟨⟨hw.run, hw.layout, hw.hist⟩, hw.located⟩, fun hp path hne => ?_⟩
    exact (Function.update_of_ne hne _ _).trans (hw.lower hp path hne)
  · refine succeed_spec Synced.stable (fun _ => Synced.stable) fun o w w' t hw _ hx => ?_
    obtain rfl := Option.some.inj hx
    exact hw
  · rintro (h | h) <;> cases h
  · refine succeed_spec Synced.stable (fun _ => (Stable.const _).and Suspended.stable) ?_
    intro o w w' t hw hG hx
    obtain rfl : o = Copied.ok := hG
    obtain rfl := Option.some.inj hx
    refine ⟨rfl, ⟨congrArg Run.suspend hw.run, hw.layout, ?_, fun hp => funext fun path => ?_⟩⟩
    · exact congrArg (Instants.suspend · w) hw.hist
    · by_cases hne : path = top
      · subst hne
        exact (Function.update_self ..).trans (congrArg w.src.tree (hw.located hp))
      · exact (Function.update_of_ne hne _ _).trans (hw.lower hp path hne)

theorem suspendAndDump_consistent (hp : v.ploop = ploop) :
    CloneSpec M B (Synced ploop top) (suspendAndDump v top) (fun _ => Dumped ploop) := by
  refine Shell.Triple.bind (Q := fun _ => Suspended ploop) ?_ fun _ => ?_
  · unfold suspendCt
    rw [hp]
    split_ifs with hploop
    · exact certain_spec Suspended.stable ploopCopy_suspends
    · refine action_spec Synced.stable Suspended.stable fun w t h => ?_
      exact ⟨congrArg Run.suspend h.run, h.layout, congrArg (Instants.suspend · w) h.hist,
        fun h => absurd h hploop⟩
  · refine Shell.Triple.bind (Q := fun _ x => Suspended ploop x ∧
      x.1.src.dump = some x.1.src.mem) ?_ fun _ => ?_
    · exact action_spec Suspended.stable (stable_of_frozen fun _ h => h.1.run)
        fun w t h => ⟨⟨h.run, h.layout, h.hist, h.image⟩, rfl⟩
    · exact action_spec (stable_of_frozen fun _ h => h.1.run) Dumped.stable
        fun w t h => ⟨⟨h.1.run, h.1.layout, h.1.hist, h.1.image⟩, h.2⟩

/-- The memory and the files of the instant are on the destination node. -/
structure Ready (x : World M B × Instants M B) : Prop where
  run : x.1.src.run = .frozen
  hist : x.2 = ({} : Instants M B).suspend x.1
  tree : x.1.dst.tree = x.1.src.tree
  dump : x.1.dst.dump = some x.1.src.mem

theorem Ready.stable : Stable (Shell.trackEnv write) (Ready (M := M) (B := B)) :=
  stable_of_frozen fun _ h => h.run

theorem syncPrivate2_consistent (hp : v.ploop = ploop) (hr : v.status.running = true) :
    CloneSpec M B (Dumped ploop) (syncPrivate2 v) (fun _ => Ready) := by
  refine Shell.Triple.when (fun _ => ?_) fun h => ?_
  · refine Shell.Triple.bind (Q := fun (ret : ℕ) x => ret = 0 ∧ Ready x) ?_ fun ret => ?_
    · refine succeed_spec Dumped.stable (fun _ => (Stable.const _).and Ready.stable) ?_
      intro (o : ℕ × Tree B) w w' t hw hG hx
      have hok : o.1 = 0 := hG
      obtain rfl : w' = w.sync none o.2 :=
        (Option.some.inj hx).symm.trans (if_pos (Or.inl hok))
      refine ⟨hok, hw.run, hw.hist, funext fun path => ?_, hw.dump⟩
      have hwrites : ¬ w.src.Writes path := fun h => by
        cases (h.1.symm.trans hw.run : Run.running = Run.frozen)
      simp only [World.sync, reduceCtorEq, if_false, if_neg hwrites]
    · refine Shell.Triple.of_pure (fun _ h => h.1) ?_
      rintro rfl
      exact Shell.Triple.ret ((Stable.const _).and Ready.stable) fun _ h => h.2
  · rw [hr, hp, Bool.true_and, Bool.not_eq_false'] at h
    exact Shell.Triple.ret Dumped.stable fun _ hx => ⟨hx.run, hx.hist, hx.image h, hx.dump⟩

theorem syncQuota_consistent : CloneSpec M B Ready (syncQuota v) (fun _ => Ready) := by
  refine when_spec Ready.stable ?_
  refine (action_spec (a := .quotaDump) (K := Ready) Ready.stable Ready.stable
    fun _ _ h => ⟨h.run, h.hist, h.tree, h.dump⟩).bind fun _ => ?_
  refine (action_spec (a := .scpQuotaDump) (K := Ready) Ready.stable Ready.stable
    fun _ _ h => ⟨h.run, h.hist, h.tree, h.dump⟩).bind fun _ => ?_
  exact action_spec (a := .quotaLoad) Ready.stable Ready.stable
    fun _ _ h => ⟨h.run, h.hist, h.tree, h.dump⟩

theorem stable_consistent : Stable (Shell.trackEnv write)
    fun x : World M B × Instants M B => Consistent x.2 :=
  Shell.stable_trackEnv fun t => Stable.const (Consistent t)

/-- What comes after the copy has been resumed is not on record. -/
theorem restoreOrStart_consistent (ho : v.opts.online = true) :
    CloneSpec M B Ready (restoreOrStart v) (fun _ x => Consistent x.2) := by
  unfold restoreOrStart
  rw [if_pos ho]
  refine Shell.Triple.bind (Q := fun _ x => Ready x ∧ x.1.dst.mem = some x.1.src.mem) ?_
    fun _ => ?_
  · exact action_spec Ready.stable (stable_of_frozen fun _ h => h.1.run)
      fun _ _ h => ⟨⟨h.run, h.hist, h.tree, h.dump⟩, h.dump⟩
  refine Shell.Triple.bind (Q := fun _ x => Consistent x.2) ?_ fun _ => ?_
  · refine action_spec (stable_of_frozen fun _ h => h.1.run) stable_consistent ?_
    rintro w t ⟨h, hmem⟩
    have hhist : t = ({} : Instants M B).suspend w := h.hist
    subst hhist
    refine ⟨w.src.mem, w.src.tree, rfl, ?_⟩
    exact congrArg some (Prod.ext hmem h.tree)
  · refine Shell.Triple.track_keep (G := AllSucceed) (A := fun e => e.cmd = .catLock ∨
      ∃ a, e.cmd = .act a ∧ a ≠ .suspend ∧ a ≠ .dstResume) ?_ stable_consistent ?_
    · refine ((undoLock_lock v.pid).mono ?_ (fun _ h => h) fun _ h => h).bind fun _ _ => ?_
      · rintro e (h | h)
        · exact Or.inl h
        · exact Or.inr ⟨_, h, by decide, by decide⟩
      have hignore {a : Action} (h₁ : a ≠ .suspend) (h₂ : a ≠ .dstResume) :
          (Prog.ignore (act a)).All (fun e => e.cmd = .catLock ∨ ∃ a, e.cmd = .act a ∧
            a ≠ .suspend ∧ a ≠ .dstResume) (fun _ => True) (fun _ => False) :=
        ignore_all (act_all (Or.inr ⟨a, rfl, h₁, h₂⟩))
      exact (hignore (by decide) (by decide)).bind fun _ _ =>
        (hignore (by decide) (by decide)).bind fun _ _ => hignore (by decide) (by decide)
    · rintro ⟨i, c⟩ he o w w' t hw _ -
      rcases he with rfl | ⟨a, rfl, h₁, h₂⟩
      · exact hw
      · cases a <;> first | exact hw | exact absurd rfl h₁ | exact absurd rfl h₂

/-! ### The script -/

theorem clone_consistent (hp : v.ploop = ploop) (hr : v.status.running = true)
    (ho : v.opts.online = true) (hcheck : v.opts.checkOnly = false) :
    CloneSpec M B (Live ploop) (clone v) (fun _ _ => True) := by
  refine (checkConf_spec hcheck).bind fun _ => copyConf_spec.bind fun _ => ?_
  refine prepare_spec.bind fun _ => compactSnapshot_spec.bind fun _ => ?_
  refine (getTopDelta_spec hp hr).bind fun top => (syncPrivate_spec hp hr).bind fun _ => ?_
  unfold suspendOrStop
  rw [if_pos ho]
  refine (suspendAndDump_consistent hp).bind fun _ => ?_
  refine (syncPrivate2_consistent hp hr).bind fun _ => syncQuota_consistent.bind fun _ => ?_
  refine (restoreOrStart_consistent ho).bind fun _ => ?_
  exact Shell.Triple.exit stable_consistent fun _ h => ⟨rfl, h⟩

/-- The container exists. -/
abbrev Present (ploop : Bool) (x : World M B × Instants M B) : Prop :=
  x.1.src.exist = true ∧ Live ploop x

theorem Present.stable : Stable (Shell.trackEnv write) (Present (M := M) (B := B) ploop) := by
  rintro n ⟨w, t⟩ x h hx
  have hlive := Live.stable n _ _ h.2 hx
  obtain ⟨w', hw', rfl⟩ := Option.map_eq_some_iff.mp hx
  obtain ⟨-, ⟨m, rfl⟩ | ⟨path, b, -, rfl⟩⟩ := write_cases hw'
  · exact ⟨h.1, hlive⟩
  · exact ⟨h.1, hlive⟩

theorem lockCt_spec (pid : ℕ) :
    CloneSpec M B (Present ploop) (lockCt pid) (fun ok x => ok = true ∧ Present ploop x) := by
  refine Shell.Triple.bind (Q := fun (locked : Bool) x => locked = true ∧ Present ploop x) ?_
    fun locked => Shell.Triple.of_pure (fun _ h => h.1) ?_
  · refine succeed_spec Present.stable (fun _ => (Stable.const _).and Present.stable) ?_
    intro o w w' t hw hG hx
    obtain ⟨hsrc, -⟩ := Cmd.exec_lock hx
    refine ⟨decide_eq_true hG, (congrArg Source.exist hsrc).trans hw.1, ?_, ?_, hw.2.hist⟩
    · exact (congrArg Source.run hsrc).trans hw.2.run
    · exact (congrArg Source.ploop hsrc).trans hw.2.layout
  · rintro rfl
    exact Shell.Triple.ret ((Stable.const _).and Present.stable) fun _ h => ⟨rfl, h.2⟩

theorem status_consistent :
    CloneSpec M B (Present ploop) (run .status)
      (fun status x => (status.deleted = false ∧ status.running = true) ∧ Live ploop x) := by
  refine succeed_spec Present.stable
    (fun status : Status =>
      (Stable.const (status.deleted = false ∧ status.running = true)).and Live.stable) ?_
  intro (o : Status) w w' t hw hG hx
  simp only [Cmd.exec] at hx
  split_ifs at hx with ho
  obtain rfl := Option.some.inj hx
  obtain rfl := ho.resolve_right hG
  obtain ⟨hexist, hlive⟩ := hw
  refine ⟨⟨?_, ?_⟩, hlive.run, hlive.layout, hlive.hist⟩
  · exact congrArg not hexist
  · exact decide_eq_true (Or.inl hlive.run)

variable (M B ploop) in
/-- **The script clones one instant of the container.** -/
theorem vzclone_consistent (pid : ℕ) {o : Options} (conf : Conf) (ho : o.online = true)
    (hcheck : o.checkOnly = false) :
    CloneSpec M B (Present ploop) (vzclone pid o conf) (fun _ _ => True) := by
  refine (required_spec .vzconf Present.stable fun _ h => h).bind fun _ => ?_
  refine (certain_spec Present.stable (lockCt_spec pid)).bind fun _ => ?_
  refine status_consistent.bind fun status => Shell.Triple.of_pure (fun _ h => h.1) fun hs => ?_
  refine Shell.Triple.pre (P := Live ploop) ?_ fun _ h => h.2
  refine (checkNodes_spec pid o hs.1 hs.2).bind fun _ => (readConf_spec pid).bind fun remote => ?_
  refine testDdxml_spec.bind fun pl => Shell.Triple.of_pure (fun _ h => h.1) fun hpl => ?_
  refine Shell.Triple.pre (P := Live ploop) ?_ fun _ h => h.2
  exact clone_consistent (v := ⟨pid, o, conf, status, remote, pl⟩) hpl hs.2 ho hcheck

end Spec

/-- The instants of a run. -/
def instants (s : Script Unit × World M B) (as : List ((vzctl M B).Event ⊕ Write M B)) :
    Instants M B :=
  ((vzctl M B).machine write).track ((vzctl M B).history Instants.record) s as {}

/-- **The clone is one instant of the container.** In every run of the script with `--live` on a
container that is running, in which all commands succeed, whatever the options and the layout of the
disk and whatever the container writes to its memory and its files in between: the script exits with
success, the container has been suspended once, and the copy has been resumed with exactly the
memory and the files that the container had at that instant. -/
theorem live_clone_consistent {pid : ℕ} {o : Options} {conf : Conf} {w w' : World M B} {n : ℕ}
    {as : List ((vzctl M B).Event ⊕ Write M B)} (ho : o.online = true) (hc : o.checkOnly = false)
    (hexist : w.src.exist = true) (hr : w.src.run = .running)
    (hG : ((vzctl M B).machine write).Along (Shell.Triple.Given AllSucceed)
      (vzclone pid o conf, w) as)
    (hrun : ((vzctl M B).machine write).run (vzclone pid o conf, w) as = some (.exit n, w')) :
    n = 0 ∧ Consistent (instants (vzclone pid o conf, w) as) :=
  (vzclone_consistent M B w.src.ploop pid conf ho hc).track_run (t := {})
    ⟨hexist, hr, rfl, rfl⟩ hG hrun

/-- Outcomes of a run in which all commands succeed. -/
def smooth : (c : Call) → World ℕ ℕ → Option (c.cmd.Out ℕ)
  | ⟨_, .status⟩, _ => some ({ mounted := true, running := true } : Status)
  | ⟨_, .remoteConf⟩, _ => some (⟨"/vz/root", "/vz/private", "/vz/dump"⟩ : RemoteConf)
  | ⟨_, c⟩, w => some (c.usual w)

theorem smooth_succeeds {c : Call} {w : World ℕ ℕ} {o : c.cmd.Out ℕ} (h : smooth c w = some o) :
    c.cmd.Succeeds o := by
  obtain ⟨i, c⟩ := c
  cases c with
  | query q => obtain rfl := Option.some.inj h; cases q <;> first | rfl | trivial
  | status =>
    obtain rfl := Option.some.inj h
    exact (by decide : ({ mounted := true, running := true } : Status) ≠ {})
  | remoteConf =>
    obtain rfl := Option.some.inj h
    exact (by decide : "/vz/root" ≠ "" ∧ "/vz/private" ≠ "")
  | applyConfig => obtain rfl := Option.some.inj h; exact Or.inl rfl
  | rsync1 _ => obtain rfl := Option.some.inj h; exact Or.inl rfl
  | testLock | catLock | testDdxml | remoteLink | ploopFeedback => trivial
  | _ => obtain rfl := Option.some.inj h; rfl

/-- The options of a live run that also compacts the image and takes a snapshot. -/
def liveOptions : Options := { online := true, compact := true, snapshot := true }

/-- The same outcomes, until the top delta is to be copied. -/
def smoothUntilCopy (c : Call) (w : World ℕ ℕ) : Option (c.cmd.Out ℕ) :=
  if c.cmd = .ploopFeedback then none else smooth c w

/-- The first part of a run on a `ploop` image, when the first `rsync` is done. -/
def smoothFirst : List (vzctl ℕ ℕ).Event × Script Unit × World ℕ ℕ :=
  (vzctl ℕ ℕ).play smoothUntilCopy (vzclone 1 liveOptions { priv := "/vz/private" })
    (.start .running true 1 fun _ => some 0)

/-- The container goes on to write to its top delta. -/
def writtenLate : World ℕ ℕ :=
  { smoothFirst.2.2 with
    src := { smoothFirst.2.2.src with
      tree := Function.update smoothFirst.2.2.src.tree "root.hdd/root.hdd" (some 7) } }

/-- The rest of the run. -/
def smoothRest : List (vzctl ℕ ℕ).Event × Script Unit × World ℕ ℕ :=
  (vzctl ℕ ℕ).play smooth smoothFirst.2.1 writtenLate

/-- The container writes to its memory before the script begins, and to its top delta between the
first `rsync` and the freeze. -/
def smoothLabels : List ((vzctl ℕ ℕ).Event ⊕ Write ℕ ℕ) :=
  .inr (.mem 1) :: (smoothFirst.1.map .inl ++
    .inr (.disk "root.hdd/root.hdd" (some 7)) :: smoothRest.1.map .inl)

theorem live_clone_consistent_smooth :
    Consistent (instants (vzclone 1 liveOptions { priv := "/vz/private" },
      World.start .running true 0 fun _ => some 0) smoothLabels) ∧
    smoothRest.2.2.dst.tree "root.hdd/root.hdd" = some 7 := by
  have hfirst := Shell.run_play (S := vzctl ℕ ℕ) (f := smoothUntilCopy) write
    (vzclone 1 liveOptions { priv := "/vz/private" }) (.start .running true 1 fun _ => some 0)
  have hwrite : ((vzctl ℕ ℕ).machine write).step smoothFirst.2
      (.inr (.disk "root.hdd/root.hdd" (some 7))) = some (smoothFirst.2.1, writtenLate) := rfl
  have hG : ((vzctl ℕ ℕ).machine write).Along (Shell.Triple.Given AllSucceed)
      (vzclone 1 liveOptions { priv := "/vz/private" }, .start .running true 0 fun _ => some 0)
      smoothLabels := by
    intro t ht
    obtain rfl := Option.some.inj ht
    refine ⟨trivial, Machine.along_append (Shell.Triple.along_play ?_ _ _) fun u hu => ?_⟩
    · intro c w o h _
      unfold smoothUntilCopy at h
      split_ifs at h
      exact smooth_succeeds h
    · obtain rfl := Option.some.inj (hu.symm.trans hfirst)
      intro v hv
      obtain rfl := Option.some.inj (hv.symm.trans hwrite)
      exact ⟨trivial, Shell.Triple.along_play (fun _ _ _ h _ => smooth_succeeds h) _ _⟩
  have hrun : ((vzctl ℕ ℕ).machine write).run
      (vzclone 1 liveOptions { priv := "/vz/private" }, .start .running true 0 fun _ => some 0)
      smoothLabels = some (.exit 0, smoothRest.2.2) := by
    refine (Machine.run_cons_eq_some _).mpr ⟨_, rfl, ?_⟩
    refine (Machine.run_append_eq_some _).mpr ⟨_, hfirst, ?_⟩
    exact (Machine.run_cons_eq_some _).mpr ⟨_, hwrite, (Shell.run_play write _ _).trans rfl⟩
  exact ⟨(live_clone_consistent rfl rfl rfl rfl hG hrun).2, rfl⟩

end Parikshan.CloneManager
