import Parikshan.CloneManager.Stages

/-!
# What a run makes and removes

A run makes files and directories of the container on the destination node and dumps on both, and
the `undo` functions remove them. This file says for each command which of these artefacts it makes
and which one it removes, and keeps the account from command to command: `Only` is a list of what
there may be, which grows with each command of the main part and shrinks with each link of the chain
of `undo` functions.

## Main definitions

* `Artefact`, `Gone`, `Clean`: what a run may leave behind.
* `Debris`: what happens in a run as far as it matters here.
* `Tidy`: the condition under which a failed run leaves nothing.
* `Action.makes`, `Action.removes`: what a command does to the artefacts.
* `Only`: there is at most what a list says.
* `Left`: something is there that the script is not going to remove any more.

## Main results

* `Only.act`, `Only.exec`, `Only.undo`: the account of one command.
* `Only.clean_iff`, `Left.clean_iff`: the end of the account.
-/

namespace Parikshan.CloneManager

variable {M B : Type}

/-! ### Artefacts -/

/-- What happens in a run. -/
structure Debris where
  /-- a command that makes the private area has failed -/
  failed : Bool := false
  /-- the directory behind the link to it has been made -/
  linked : Bool := false
  /-- the process dump has been copied -/
  copied : Bool := false
  /-- a process dump that the run has made is on the source node -/
  dumped : Bool := false
  /-- a quota dump that the run has made is there -/
  quotaDumped : Bool := false
  deriving DecidableEq, Repr

def Debris.record (_ : World M B) (e : (vzctl M B).Event) (t : Debris) : Debris :=
  match e with
  | ⟨⟨_, .act (.mkdirPrivateTarget _)⟩, (o : Bool)⟩ =>
    { t with failed := !o || t.failed, linked := o || t.linked }
  | ⟨⟨_, .act .mkdirPrivate⟩, (o : Bool)⟩ => { t with failed := !o || t.failed }
  | ⟨⟨_, .act .scpDump⟩, (o : Bool)⟩ => { t with copied := o || t.copied }
  | ⟨⟨_, .act .dump⟩, (o : Bool)⟩ => { t with dumped := o || t.dumped }
  | ⟨⟨_, .act .rmDump⟩, (o : Bool)⟩ => { t with dumped := !o && t.dumped }
  | ⟨⟨_, .act .quotaDump⟩, (o : Bool)⟩ => { t with quotaDumped := o || t.quotaDumped }
  | ⟨⟨_, .act .rmQuotaDump⟩, (o : Bool)⟩ => { t with quotaDumped := !o && t.quotaDumped }
  | _ => t

/-- What there may be of the container on the destination node, and the dumps that a run makes on
the source node. -/
inductive Artefact
  | config
  | actScripts
  | dumpFile
  | priv
  | target
  | root
  | quotaInit
  | quotaOn
  | dump
  | quotaDump
  | srcDump
  | srcQuotaDump
  deriving DecidableEq, Repr

def Gone (x : World M B × Debris) : Artefact → Prop
  | .config => x.1.dst.config = none
  | .actScripts => x.1.dst.actScripts = false
  | .dumpFile => x.1.dst.dumpFile = false
  | .priv => x.1.dst.priv = false
  | .target => x.1.dst.target = none
  | .root => x.1.dst.root = false
  | .quotaInit => x.1.dst.quotaInit = false
  | .quotaOn => x.1.dst.quotaOn = false
  | .dump => x.1.dst.dump = none
  | .quotaDump => x.1.dst.quotaDump = false
  | .srcDump => x.2.dumped = false
  | .srcQuotaDump => x.2.quotaDumped = false

/-- Nothing is left. -/
def Clean (x : World M B × Debris) : Prop := ∀ a, Gone x a

/-- **The condition.** No command that makes the private area has failed, the process dump has not
been copied, and if a directory has been made behind a link, there is a link to it under the remote
name on the source node as well. -/
def Tidy (conf : Conf) (link : Option String) (t : Debris) : Prop :=
  t.failed = false ∧ t.copied = false ∧ (t.linked = true → link = some conf.privateTarget)

/-- What an action makes if it succeeds. -/
def Action.makes : Action → List Artefact
  | .scpConf _ => [.config]
  | .scpActScripts => [.actScripts]
  | .scpDumpFile => [.dumpFile]
  | .mkdirRoot => [.root]
  | .mkdirPrivateTarget _ => [.priv, .target]
  | .mkdirPrivate => [.priv]
  | .quotaInit => [.quotaInit]
  | .quotaOn => [.quotaOn]
  | .dump => [.srcDump]
  | .scpDump => [.dump]
  | .quotaDump => [.srcQuotaDump]
  | .scpQuotaDump => [.quotaDump]
  | _ => []

/-- What an action removes if it succeeds. -/
def Action.removes : Action → Option Artefact
  | .rmConf => some .config
  | .rmActScripts => some .actScripts
  | .rmDumpFile => some .dumpFile
  | .rmPrivate | .rmPrivateTarget _ => some .priv
  | .rmRoot => some .root
  | .quotaDrop => some .quotaInit
  | .quotaOff => some .quotaOn
  | .rmDump => some .srcDump
  | .rmDstDump => some .dump
  | .rmQuotaDump => some .srcQuotaDump
  | .rmDstQuotaDump => some .quotaDump
  | _ => none

/-- What a command makes if it succeeds. -/
def Cmd.makes : Cmd → List Artefact
  | .act a => a.makes
  | .rsync1 _ | .rsync2 => [.priv]
  | _ => []

/-- An action that neither makes the private area, nor removes it through a link, nor copies the
process dump. -/
def Action.Plain : Action → Prop
  | .mkdirPrivateTarget _ | .mkdirPrivate | .rmPrivateTarget _ | .scpDump => False
  | _ => True

section Commands

variable {w w' : World M B} {t : Debris} {b : Artefact} {i : Issuer} {a : Action}

/-- An action makes nothing else. -/
theorem Gone.act {ok : Bool} (hb : ok = true → b ∉ a.makes) (h : Gone (w, t) b) :
    Gone (bif ok then a.effect w else w, t.record w ⟨⟨i, .act a⟩, ok⟩) b := by
  cases ok with
  | false => cases a <;> exact h
  | true =>
    cases a with
    | setPaths dir =>
      cases b with
      | config => exact Option.map_eq_none_iff.mpr h
      | _ => exact h
    | rmPrivateTarget dir =>
      cases b with
      | priv => rfl
      | target =>
        have htarget : w.dst.target = none := h
        simp [Gone, Action.effect, htarget]
      | _ => exact h
    | _ =>
      first
      | exact h
      | (cases b <;> first | exact h | rfl | exact absurd (by simp [Action.makes]) (hb rfl))

theorem Gone.removed (h : a.removes = some b) :
    Gone (a.effect w, t.record w ⟨⟨i, .act a⟩, true⟩) b := by
  cases a <;> cases h <;> rfl

theorem Action.makes_of_removes (h : a.removes = some b) : a.makes = [] := by
  cases a <;> first | rfl | cases h

/-! ### Between the commands -/

/-- There is at most what the list says, no command that makes the private area has failed, and the
process dump has not been copied. A directory behind a link has been made by the script, and if the
link on the source node leads elsewhere it stays. -/
structure Only (conf : Conf) (link : Option String) (S : List Artefact)
    (x : World M B × Debris) : Prop where
  gone : ∀ b, Gone x b ∨ b ∈ S
  source : x.1.src.remoteLink = link
  target : x.1.dst.target = none ∨
    x.1.dst.target = some conf.privateTarget ∧ x.2.linked = true
  stays : link ≠ some conf.privateTarget → x.2.linked = true → x.1.dst.target ≠ none
  failed : x.2.failed = false
  copied : x.2.copied = false

/-- What no `undo` function removes. -/
def lost (conf : Conf) (link : Option String) : List Artefact :=
  if link = some conf.privateTarget then [] else [.target]

namespace Only

variable {conf : Conf} {link : Option String} {S T : List Artefact} {x : World M B × Debris}

theorem mono (h : Only conf link S x) (hST : S ⊆ T) : Only conf link T x :=
  { h with gone := fun b => (h.gone b).imp_right fun hb => hST hb }

theorem drop (h : Only conf link (b :: S) x) (hb : Gone x b) : Only conf link S x := by
  refine { h with gone := fun c => ?_ }
  by_cases hc : c = b
  · exact Or.inl (hc ▸ hb)
  · exact (h.gone c).imp_right fun hmem => List.mem_of_ne_of_mem hc hmem

/-- Only the destination node and the link matter. -/
theorem congr (h : Only conf link S (w, t)) (hdst : w'.dst = w.dst)
    (hlink : w'.src.remoteLink = w.src.remoteLink) : Only conf link S (w', t) := by
  refine ⟨fun b => (h.gone b).imp_left fun hb => ?_, hlink.trans h.source, hdst ▸ h.target,
    hdst ▸ h.stays, h.failed, h.copied⟩
  cases b <;> simpa [Gone, hdst] using hb

theorem stable : Stable (Shell.trackEnv write) (Only (M := M) (B := B) conf link S) := by
  refine Shell.stable_trackEnv fun t x w w' h hw => ?_
  obtain ⟨-, ⟨m, rfl⟩ | ⟨path, c, -, rfl⟩⟩ := write_cases hw
  · exact h.congr rfl rfl
  · exact h.congr rfl rfl

theorem act (ha : a.Plain) (h : Only conf link S (w, t)) (ok : Bool) :
    Only conf link (bif ok then a.makes ++ S else S)
      (bif ok then a.effect w else w, t.record w ⟨⟨i, .act a⟩, ok⟩) := by
  have hgone : ∀ b, Gone (bif ok then a.effect w else w, t.record w ⟨⟨i, .act a⟩, ok⟩) b ∨
      b ∈ bif ok then a.makes ++ S else S := by
    intro b
    by_cases hb : ok = true ∧ b ∈ a.makes
    · obtain ⟨rfl, hb⟩ := hb
      exact Or.inr (List.mem_append_left _ hb)
    · refine (h.gone b).imp (fun hgone => hgone.act fun hok hmem => hb ⟨hok, hmem⟩) fun hmem => ?_
      cases ok
      · exact hmem
      · exact List.mem_append_right _ hmem
  cases ok <;> cases a <;>
    first | exact ha.elim | exact ⟨hgone, h.source, h.target, h.stays, h.failed, h.copied⟩

theorem undo (ha : a.Plain) (hb : a.removes = some b) (h : Only conf link (b :: S) (w, t)) :
    Only conf link S (a.effect w, t.record w ⟨⟨i, .act a⟩, true⟩) := by
  have hact := h.act (i := i) ha true
  rw [Action.makes_of_removes hb] at hact
  exact hact.drop (Gone.removed hb)

/-- A command that is not an action. -/
theorem exec {c : Cmd} {o : c.Out B} (hc : ∀ a, c ≠ .act a) (h : Only conf link S (w, t))
    (hx : c.exec o w = some w') :
    Only conf link (c.makes ++ S) (w', t.record w ⟨⟨i, c⟩, o⟩) := by
  have hrecord : t.record w ⟨⟨i, c⟩, o⟩ = t := by
    cases c <;> first | rfl | exact absurd rfl (hc _)
  have hmono := h.mono (List.subset_append_right c.makes S)
  rw [hrecord]
  rcases Cmd.exec_cases hx with rfl | ⟨a, rfl, -⟩ | ⟨pid, owner, rfl, rfl⟩ | ⟨tree, top, -, rfl⟩ |
    ⟨exclude, tree, hsync, rfl⟩ | ⟨feedback, freeze, top, tree, -, rfl⟩
  · exact hmono
  · exact absurd rfl (hc a)
  · exact hmono.congr rfl rfl
  · exact hmono.congr rfl rfl
  · have hmakes : c.makes = [.priv] := by rcases hsync with rfl | rfl <;> rfl
    refine { hmono with gone := fun b => ?_ }
    have hb := hmono.gone b
    cases b with
    | priv => exact Or.inr (List.mem_append_left _ (hmakes ▸ List.mem_cons_self ..))
    | _ => exact hb
  · refine { hmono with gone := fun b => ?_ }
    have hb := hmono.gone b
    cases b <;> exact hb

/-- A command that changes nothing but the lock file. -/
theorem look {c : Call} {o : c.cmd.Out B} (hc : c.Looks) (h : Only conf link S (w, t))
    (hx : c.cmd.exec o w = some w') : Only conf link S (w', t.record w ⟨c, o⟩) := by
  obtain ⟨hsrc, hdst⟩ := Cmd.Looks.exec hc hx
  obtain ⟨i, cmd⟩ := c
  have hrecord : Debris.record w ⟨⟨i, cmd⟩, o⟩ t = t := by
    cases cmd with
    | act a => cases a <;> first | exact hc.elim | rfl
    | _ => first | exact hc.elim | rfl
  rw [hrecord]
  exact h.congr hdst (congrArg Source.remoteLink hsrc)

/-- The private area is removed through the link on the source node. -/
theorem unlink {dir : String} (hlink : link = some dir)
    (h : Only conf link (.priv :: .target :: S) (w, t)) :
    Only conf link (lost conf link ++ S)
      ((Action.rmPrivateTarget dir).effect w,
        t.record w ⟨⟨i, .act (.rmPrivateTarget dir)⟩, true⟩) := by
  have htarget : w.dst.target = none ∨
      w.dst.target = some conf.privateTarget ∧ t.linked = true := h.target
  have hrest {b : Artefact} (hp : b ≠ .priv) (ht : b ≠ .target)
      (hb : b ∈ .priv :: .target :: S) : b ∈ lost conf link ++ S :=
    List.mem_append_right _ (List.mem_of_ne_of_mem ht (List.mem_of_ne_of_mem hp hb))
  by_cases hdir : dir = conf.privateTarget
  · have hnone : (if w.dst.target = some dir then none else w.dst.target) = none := by
      rcases htarget with ht | ⟨ht, -⟩ <;> simp [ht, hdir]
    refine { h with gone := fun b => ?_, target := Or.inl hnone, stays := ?_ }
    · have hb := h.gone b
      cases b with
      | priv => exact Or.inl rfl
      | target => exact Or.inl hnone
      | _ => exact hb.imp_right (hrest (by simp) (by simp))
    · exact fun hne => absurd (hlink.trans (congrArg some hdir)) hne
  · have hsame : (if w.dst.target = some dir then none else w.dst.target) = w.dst.target := by
      refine if_neg fun ht => hdir ?_
      rcases htarget with hn | ⟨hs, -⟩
      · rw [hn] at ht
        cases ht
      · exact Option.some.inj (ht.symm.trans hs)
    refine { h with gone := fun b => ?_, target := ?_, stays := ?_ }
    · have hb := h.gone b
      cases b with
      | priv => exact Or.inl rfl
      | target => exact Or.inr (by simp [lost, hlink, hdir])
      | _ => exact hb.imp_right (hrest (by simp) (by simp))
    · exact htarget.imp hsame.trans fun ht => ⟨hsame.trans ht.1, ht.2⟩
    · exact fun hne hl hn => h.stays hne hl (hsame.symm.trans hn)

theorem mkdirTarget (h : Only conf link S (w, t)) :
    Only conf link (.priv :: .target :: S)
      ((Action.mkdirPrivateTarget conf.privateTarget).effect w,
        t.record w ⟨⟨i, .act (.mkdirPrivateTarget conf.privateTarget)⟩, true⟩) := by
  refine { h with
    gone := fun b => ?_
    target := Or.inr ⟨rfl, rfl⟩
    stays := fun _ _ => Option.some_ne_none conf.privateTarget }
  have hb := (h.mono (List.subset_append_right [.priv, .target] S)).gone b
  cases b with
  | priv => exact Or.inr (by simp)
  | target => exact Or.inr (by simp)
  | _ => exact hb

theorem mkdir (h : Only conf link S (w, t)) :
    Only conf link (.priv :: S)
      (Action.mkdirPrivate.effect w, t.record w ⟨⟨i, .act .mkdirPrivate⟩, true⟩) := by
  refine { h with gone := fun b => ?_ }
  have hb := (h.mono (List.subset_cons_self .priv S)).gone b
  cases b with
  | priv => exact Or.inr (by simp)
  | _ => exact hb

/-- At the end of the chain. -/
theorem clean_iff (h : Only conf link (lost conf link) x) :
    Clean x ↔ Tidy conf link x.2 := by
  unfold Tidy
  by_cases hlink : link = some conf.privateTarget
  · have hclean : Clean x := fun b => (h.gone b).resolve_right (by simp [lost, hlink])
    exact ⟨fun _ => ⟨h.failed, h.copied, fun _ => hlink⟩, fun _ => hclean⟩
  · refine ⟨fun hc => ⟨h.failed, h.copied, fun hl => absurd (hc .target) (h.stays hlink hl)⟩,
      fun ⟨_, _, hl⟩ b => ?_⟩
    rcases h.gone b with hb | hb
    · exact hb
    · obtain rfl : b = .target := by simpa [lost, hlink] using hb
      exact h.target.resolve_right fun ht => hlink (hl ht.2)

end Only

/-- The root directory and the process dump stay until a command removes them. -/
theorem not_gone_act (hb : b = .root ∨ b = .srcDump) (ha : a.removes ≠ some b)
    (h : ¬ Gone (w, t) b) (ok : Bool) :
    ¬ Gone (bif ok then a.effect w else w, t.record w ⟨⟨i, .act a⟩, ok⟩) b := by
  rcases hb with rfl | rfl <;> cases ok <;> cases a <;>
    first | exact h | exact absurd rfl ha | exact Bool.false_ne_true.symm

theorem not_gone_stable :
    Stable (Shell.trackEnv write) fun x : World M B × Debris => ¬ Gone x b := by
  refine Shell.stable_trackEnv fun t x w w' h hw hgone => h ?_
  obtain ⟨-, ⟨m, rfl⟩ | ⟨path, c, -, rfl⟩⟩ := write_cases hw <;> cases b <;> exact hgone

/-- An artefact is there that the script is not going to remove any more, because a command that
makes the private area has failed or the process dump has been copied. -/
structure Left (b : Artefact) (x : World M B × Debris) : Prop where
  there : ¬ Gone x b
  late : x.2.failed = true ∨ x.2.copied = true

/-- A command that does not remove an artefact. -/
def Call.Spares (b : Artefact) (c : Call) : Prop := ∀ a, c.cmd = .act a → a.removes ≠ some b

namespace Left

theorem stable : Stable (Shell.trackEnv write) (Left (M := M) (B := B) b) := by
  rintro n ⟨w, t⟩ x h hx
  have hthere := not_gone_stable n _ _ h.there hx
  obtain ⟨w', -, rfl⟩ := Option.map_eq_some_iff.mp hx
  exact ⟨hthere, h.late⟩

theorem exec (hb : b = .root ∨ b = .srcDump) {c : Call} (hc : c.Spares b) {o : c.cmd.Out B}
    (h : Left b (w, t)) (hx : c.cmd.exec o w = some w') : Left b (w', t.record w ⟨c, o⟩) := by
  obtain ⟨i, cmd⟩ := c
  cases cmd with
  | act a =>
    obtain rfl := Option.some.inj hx
    have hthere := not_gone_act (i := i) hb (hc a rfl) h.there o
    constructor
    · cases o <;> exact hthere
    · cases o <;> cases a <;> first | exact h.late | exact Or.inl rfl | exact Or.inr rfl
  | _ =>
    have hroot : w'.dst.root = w.dst.root := by
      rcases Cmd.exec_cases hx with rfl | ⟨a, hact, -⟩ | ⟨pid, owner, -, rfl⟩ |
        ⟨tree, top, -, rfl⟩ | ⟨exclude, tree, -, rfl⟩ |
        ⟨feedback, freeze, top, tree, -, rfl⟩ <;>
        first | rfl | cases hact
    refine ⟨fun hgone => h.there ?_, h.late⟩
    rcases hb with rfl | rfl
    · exact hroot.symm.trans hgone
    · exact hgone

/-- The condition is not met, and something is left. -/
theorem clean_iff {conf : Conf} {link : Option String} {x : World M B × Debris} (h : Left b x) :
    Clean x ↔ Tidy conf link x.2 := by
  refine ⟨fun hc => absurd (hc b) h.there, fun ⟨hf, hc, _⟩ => ?_⟩
  rcases h.late with hl | hl
  · exact absurd (hf.symm.trans hl) Bool.false_ne_true
  · exact absurd (hc.symm.trans hl) Bool.false_ne_true

end Left

end Commands

end Parikshan.CloneManager
